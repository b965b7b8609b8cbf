import ComponentRegistry.Source.Facts

/-! # Exported names

The names that a source unit exports are listed once each. The word `default` is kept apart from
them, except where an export binds it like any other name: in a declaration of it, or for everything
that another module exports.
-/

namespace ComponentRegistry

open ExportForm (defaultWord)

/-- Whether an export has the word `default` among its names. -/
inductive ExportForm.BindsDefault : ExportForm → Prop where
  | declaration {declared : DeclarationKind} {keyword : Token} {async : Option Token}
      {bound : List String} (runtime : declared.isErased = false) (named : defaultWord ∈ bound) :
      BindsDefault (.declaration declared keyword async bound false)
  | everything (source : ModuleSource) : BindsDefault (.everything (some defaultWord) source false)

/-- No other export names it. -/
theorem ExportForm.mem_names_iff (form : ExportForm) :
    defaultWord ∈ form.names ↔ form.BindsDefault := by
  refine ⟨fun h => ?_, fun h => ?_⟩
  · cases form with
    | declaration declared keyword async bound ambient =>
      cases ambient <;> cases herased : declared.isErased <;>
        simp [names, typeOnly, herased] at h
      exact .declaration herased h
    | list specifiers source typeOnly => simp [names] at h
    | everything name source typeOnly =>
      cases typeOnly <;> simp [names] at h
      subst h
      exact .everything source
    | _ => simp [names] at h
  · cases h with
    | declaration runtime named => simp [names, typeOnly, runtime, named]
    | everything => simp [names]

theorem ExportForm.BindsDefault.typeOnly_eq {form : ExportForm} (h : form.BindsDefault) :
    form.typeOnly = false := by
  cases h with
  | declaration runtime => simp [typeOnly, runtime]
  | everything => rfl

namespace ExportStatement

variable {e : ExportStatement}

theorem ownDefaultName_ne : e.ownDefaultName ≠ some defaultWord := by
  simp [ownDefaultName, Option.filter_eq_some_iff]

/-- What a statement adds to the names of its module has the word `default` only if it binds it. -/
theorem mem_addedNames_iff : defaultWord ∈ e.addedNames ↔ e.form.BindsDefault := by
  rw [← ExportForm.mem_names_iff, addedNames]
  split
  · next hform => simp [hform, ExportForm.names]
  · split
    · simp [names, ownDefaultName_ne]
    · simp [names]

end ExportStatement

namespace Outline

variable {o : Outline}

theorem nodup_exportedNames (o : Outline) : o.exportedNames.Nodup := by
  rw [exportedNames]
  split
  · simp
  · exact nodup_firstOccurrences _

/-- Where nothing binds it, the word `default` stands for a default export alone. -/
theorem mem_exportedNames_iff : defaultWord ∈ o.exportedNames ↔
    (∃ e ∈ o.exports, e.form.BindsDefault) ∨
      o.exportedNames = [defaultWord] ∧ o.defaultExport = some defaultWord := by
  have hadded : defaultWord ∈ firstOccurrences (o.runtimeExports.flatMap
      ExportStatement.addedNames) ↔ ∃ e ∈ o.exports, e.form.BindsDefault := by
    simp only [mem_firstOccurrences, List.mem_flatMap, ExportStatement.mem_addedNames_iff,
      runtimeExports, List.mem_filter, Bool.not_eq_true']
    exact ⟨fun ⟨e, he, h⟩ => ⟨e, he.1, h⟩, fun ⟨e, he, h⟩ => ⟨e, ⟨he, h.typeOnly_eq⟩, h⟩⟩
  rw [← hadded, exportedNames]
  split
  · next hsole =>
    simp only [Bool.and_eq_true, beq_iff_eq] at hsole
    simp [hsole]
  · next hnames =>
    refine ⟨.inl, fun h => h.elim id fun hsole => ?_⟩
    rw [hsole.1]
    exact List.mem_singleton_self _

end Outline

/-- The exported names of a source unit have no repeats. The word `default` is among them as the
only one, for a default export without a name, or because an export binds it. -/
theorem exportedNames_of_analyzeSource {table : ResolutionTable} {source text : String}
    {facts : SourceFacts} (h : analyzeSource table source text = .ok facts) :
    facts.exportedNames.Nodup ∧ ∃ o, outlineOf source text = .ok o ∧
      (∀ e ∈ o.exports, defaultWord ∈ e.names ↔ e.form.BindsDefault) ∧
      (defaultWord ∈ facts.exportedNames ↔ (∃ e ∈ o.exports, e.form.BindsDefault) ∨
        facts.exportedNames = [defaultWord] ∧ facts.defaultExport = some defaultWord) := by
  obtain ⟨o, ho, rfl⟩ := map_eq_ok.1 h
  exact ⟨o.nodup_exportedNames, o, ho, fun e _ => e.form.mem_names_iff, o.mem_exportedNames_iff⟩

/-- A clause that renames to `default`, a type of that name, and a default export without a name. -/
theorem exportedNames_of_mixed_exports :
    let text := "export \x7b a as default, b, a \x7d;\nexport type default = 1\nexport default 1"
    ∃ facts, analyzeSource {} "a.ts" text = .ok facts ∧ facts.exportedNames = ["a", "b"] ∧
      facts.defaultExport = some defaultWord ∧ facts.exportedNames.Nodup ∧
      ∃ o, outlineOf "a.ts" text = .ok o ∧
        (∀ e ∈ o.exports, defaultWord ∈ e.names ↔ e.form.BindsDefault) ∧
        (defaultWord ∈ facts.exportedNames ↔ (∃ e ∈ o.exports, e.form.BindsDefault) ∨
          facts.exportedNames = [defaultWord] ∧ facts.defaultExport = some defaultWord) := by
  intro text
  let facts := (analyzeSource {} "a.ts" text).toOption.getD ⟨[], none, []⟩
  obtain ⟨hfacts, hnames, hdefault⟩ : (analyzeSource {} "a.ts" text).toOption.isSome = true ∧
      facts.exportedNames = ["a", "b"] ∧ facts.defaultExport = some defaultWord := by
    decide +kernel
  have hfacts := eq_ok_getD hfacts ⟨[], none, []⟩
  exact ⟨facts, hfacts, hnames, hdefault, exportedNames_of_analyzeSource hfacts⟩

/-- Everything of another module, exported under the name `default`, brings that word among the
exported names beside others, and is no default export. -/
theorem defaultWord_among_exportedNames :
    let text := "export * as default from './button'\nexport const a = 1"
    ∃ facts o, analyzeSource {} "a.ts" text = .ok facts ∧ outlineOf "a.ts" text = .ok o ∧
      facts.exportedNames = [defaultWord, "a"] ∧ facts.defaultExport = none ∧
      ∃ e ∈ o.exports, defaultWord ∈ e.names := by
  intro text
  let facts := (analyzeSource {} "a.ts" text).toOption.getD ⟨[], none, []⟩
  let o := (outlineOf "a.ts" text).toOption.getD ⟨[], []⟩
  obtain ⟨hfacts, ho, hnames, hdefault, hbinds⟩ :
      (analyzeSource {} "a.ts" text).toOption.isSome = true ∧
        (outlineOf "a.ts" text).toOption.isSome = true ∧ facts.exportedNames = [defaultWord, "a"] ∧
        facts.defaultExport = none ∧ ∃ e ∈ o.exports, defaultWord ∈ e.names := by
    decide +kernel
  exact ⟨facts, o, eq_ok_getD hfacts _, eq_ok_getD ho _, hnames, hdefault, hbinds⟩

end ComponentRegistry
