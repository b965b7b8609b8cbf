import ComponentRegistry.Proofs.Source.ExportedNames
import ComponentRegistry.Proofs.Submission

/-! # The render entry of a demo

The export that a demo is shown by is named by its last default export, or else it is the only one.
What a default export of this module is called is among the exported names. What another module
calls its own is not, although a clause that exports it from there as the default names it too.
-/

namespace ComponentRegistry

open ExportForm (defaultWord)

/-- A default export of the module itself, under a name of its own, adds that name. -/
theorem ExportStatement.mem_addedNames_of_defaultExportName {e : ExportStatement} {n : String}
    (names : e.defaultExportName = some n) (own : e.source = none) (named : n ≠ defaultWord)
    (given : n.isEmpty = false) : n ∈ e.addedNames := by
  have ownName : e.ownDefaultName = some n := by
    simp [ownDefaultName, names, named, given]
  unfold addedNames
  split
  · next specifiers typeOnly hform =>
    -- The last entry that is renamed to `default` adds what it is renamed from.
    simp only [defaultExportName, hform, ExportForm.defaultExportName] at names
    obtain ⟨entry, hentry, himported⟩ := List.mem_map.1 (List.mem_of_getLast? names)
    obtain ⟨hruntime, hbound⟩ := List.mem_filter.1 hentry
    refine List.mem_filter.2 ⟨List.mem_map.2 ⟨entry, hform ▸ hruntime, ?_⟩, by simpa using named⟩
    rw [if_pos (by simpa using hbound), himported]
  · simp [own, ownName]

namespace Outline

variable {o : Outline} {n : String}

/-- The default export that counts, the last one if there are several. -/
def lastDefault? (o : Outline) : Option ExportStatement :=
  o.runtimeExports.reverse.find? fun e => e.defaultExportName.isSome

theorem defaultExport_eq (o : Outline) : o.defaultExport =
    (o.lastDefault?.bind ExportStatement.defaultExportName).map fun name =>
      if name.isEmpty then defaultWord else name := by
  rw [defaultExport, List.getLast?_filterMap, lastDefault?]
  congr 1
  induction o.runtimeExports.reverse with
  | nil => rfl
  | cons e rest ih =>
    rw [List.findSome?_cons, List.find?_cons]
    cases hname : e.defaultExportName with
    | none => simpa [hname] using ih
    | some name => simp [hname]

theorem mem_runtimeExports_of_lastDefault? {e : ExportStatement} (h : o.lastDefault? = some e) :
    e ∈ o.runtimeExports :=
  List.mem_reverse.1 (List.mem_of_find?_eq_some h)

/-- A default export with a name is the last one, and has that name of its own. -/
theorem exists_of_defaultExport_eq (h : o.defaultExport = some n) (named : n ≠ defaultWord) :
    ∃ e, o.lastDefault? = some e ∧ e.defaultExportName = some n ∧ n.isEmpty = false := by
  rw [defaultExport_eq, Option.map_eq_some_iff] at h
  obtain ⟨name, hname, h⟩ := h
  obtain ⟨e, he, hname⟩ := Option.bind_eq_some_iff.1 hname
  split at h
  · exact absurd h.symm named
  · next given =>
    subst h
    exact ⟨e, he, hname, by simpa using given⟩

/-- A name that is not the word `default` is exported if an export adds it. -/
theorem mem_exportedNames_iff_of_ne (named : n ≠ defaultWord) :
    n ∈ o.exportedNames ↔ ∃ e ∈ o.runtimeExports, n ∈ e.addedNames := by
  have added : n ∈ firstOccurrences (o.runtimeExports.flatMap ExportStatement.addedNames) ↔
      ∃ e ∈ o.runtimeExports, n ∈ e.addedNames := by
    rw [mem_firstOccurrences, List.mem_flatMap]
  rw [← added, exportedNames]
  split
  · next hsole =>
    simp only [Bool.and_eq_true, List.isEmpty_iff] at hsole
    simp [hsole.1, named]
  · rfl

/-- A module that is shown by rendering `n`. The name is no placeholder. It is exported, unless the
default export is another module's, what that module calls it is `n`, and nothing else brings that
name. Without a default export it is the only exported name, but for a `default` that an export
binds like any other name. -/
structure Renders (o : Outline) (n : String) : Prop where
  ne : n ≠ defaultWord
  foreign : n ∉ o.exportedNames ↔ ∃ e, o.lastDefault? = some e ∧ e.source.isSome ∧
    e.defaultExportName = some n ∧ ∀ other ∈ o.runtimeExports, n ∉ other.addedNames
  sole : o.defaultExport = none →
    (o.exportedNames = [n] ↔ ∀ e ∈ o.exports, ¬ e.form.BindsDefault)

end Outline

theorem SourceFacts.demoEntry_eq_ok {facts : SourceFacts} {n : String}
    (h : facts.demoEntry = .ok n) : n ≠ defaultWord ∧
      (facts.defaultExport = some n ∨ facts.defaultExport = none ∧ facts.candidates = [n]) := by
  unfold demoEntry at h
  split at h
  · next name hdefault =>
    split at h
    · cases h
    · next named =>
      cases h
      exact ⟨named, .inl hdefault⟩
  · next hdefault =>
    split at h
    · next name hcandidates =>
      cases h
      have mem : n ∈ facts.candidates := hcandidates ▸ List.mem_singleton_self n
      exact ⟨by simpa using (List.mem_filter.1 mem).2, .inr ⟨hdefault, hcandidates⟩⟩
    · cases h

namespace Outline

variable {o : Outline} {n : String}

theorem renders_of_demoEntry {table : ResolutionTable} (h : (o.facts table).demoEntry = .ok n) :
    o.Renders n := by
  obtain ⟨named, entry⟩ := SourceFacts.demoEntry_eq_ok h
  have hmem := mem_exportedNames_iff_of_ne (o := o) named
  refine ⟨named, ⟨fun missing => ?_, ?_⟩, fun hdefault => ?_⟩
  · rcases entry with hdefault | ⟨-, hcandidates⟩
    · obtain ⟨e, he, hname, given⟩ := exists_of_defaultExport_eq hdefault named
      refine ⟨e, he, ?_, hname, fun other hother mem => missing (hmem.2 ⟨other, hother, mem⟩)⟩
      -- A default export of the module itself would have added the name.
      by_contra own
      rw [Option.not_isSome_iff_eq_none] at own
      exact missing (hmem.2 ⟨e, mem_runtimeExports_of_lastDefault? he,
        ExportStatement.mem_addedNames_of_defaultExportName hname own named given⟩)
    · have mem : n ∈ (o.facts table).candidates := hcandidates ▸ List.mem_singleton_self n
      exact absurd (List.mem_filter.1 mem).1 missing
  · rintro ⟨e, -, -, -, missing⟩ mem
    obtain ⟨other, hother, mem⟩ := hmem.1 mem
    exact missing other hother mem
  · have hcandidates : o.exportedNames.filter (· != defaultWord) = [n] :=
      (entry.resolve_left fun given => by cases hdefault.symm.trans given).2
    have hword : defaultWord ∈ o.exportedNames ↔ ∃ e ∈ o.exports, e.form.BindsDefault := by
      rw [mem_exportedNames_iff, hdefault]
      simp
    constructor
    · intro hsole e he binds
      have mem := hword.2 ⟨e, he, binds⟩
      rw [hsole] at mem
      exact named (List.mem_singleton.1 mem).symm
    · intro plain
      have missing : defaultWord ∉ o.exportedNames := fun mem =>
        have ⟨e, he, binds⟩ := hword.1 mem
        plain e he binds
      rw [← hcandidates, eq_comm, List.filter_eq_self]
      intro name mem
      simpa using ne_of_mem_of_not_mem mem missing

end Outline

/-- A text whose facts, under every table, are those of a module that is shown by rendering `n`. -/
def RendersText (text n : String) : Prop :=
  ∃ o, outline text.toList = .ok o ∧
    (∀ table source, analyzeSource table source text = .ok (o.facts table)) ∧ o.Renders n

theorem rendersText_of_demoEntry {table : ResolutionTable} {source text n : String}
    {facts : SourceFacts} (hfacts : analyzeSource table source text = .ok facts)
    (h : facts.demoEntry = .ok n) : RendersText text n := by
  obtain ⟨o, ho, rfl⟩ := map_eq_ok.1 hfacts
  have ho := mapError_eq_ok.1 ho
  refine ⟨o, ho, fun table source => ?_, Outline.renders_of_demoEntry h⟩
  exact map_eq_ok.2 ⟨o, mapError_eq_ok.2 ho, rfl⟩

/-- The render entry of a demo is a name that the demo exports, unless its default export is
another module's. The same goes for the rewritten demo of a submission. -/
theorem rendersText_of_demo (settings : AnalysisSettings) (component demo : String)
    (existing : InternalDependencies) (known : OrderedMap String String) :
    (∀ n, demoComponentName demo = .ok n → RendersText demo n) ∧
      ∀ analysis, analyzeSubmission settings component demo existing known = .ok analysis →
        RendersText analysis.demo analysis.demoExportName := by
  constructor
  · intro n h
    obtain ⟨facts, hfacts, hentry⟩ := bind_eq_ok.1 h
    exact rendersText_of_demoEntry (mapError_eq_ok.1 hfacts) hentry
  · intro analysis h
    obtain ⟨_, facts, -, hfacts, follows⟩ := analyzeSubmission_describes h
    exact rendersText_of_demoEntry (hfacts "demo") follows.render

/-- A clause of another module names the default export, then a clause of the demo itself. -/
theorem rendersText_of_renamed :
    let demo := "export \x7b Card as default \x7d from './card'\nconst Demo = 1\n" ++
      "export \x7b Demo as default \x7d\nexport const a = 1"
    demoComponentName demo = .ok "Demo" ∧ RendersText demo "Demo" ∧
      ∃ analysis, analyzeSubmission {} "export const Card = 1" demo ∅ ∅ = .ok analysis ∧
        analysis.demoExportName = "Demo" ∧ RendersText analysis.demo analysis.demoExportName := by
  intro demo
  have entry : demoComponentName demo = .ok "Demo" := by decide +kernel
  have name : (analyzeSubmission {} "export const Card = 1" demo ∅ ∅).toOption.map
      (fun a => a.demoExportName) = some "Demo" := by
    decide +kernel
  obtain ⟨analysis, h, hname⟩ := exists_of_toOption_map name
  obtain ⟨text, submitted⟩ := rendersText_of_demo {} "export const Card = 1" demo ∅ ∅
  exact ⟨entry, text _ entry, analysis, h, hname, submitted analysis h⟩

/-- A default export from another module names no export of the demo, and the demo is rendered by
that name. -/
theorem renderEntry_not_exported :
    let demo := "export \x7b Card as default \x7d from './card'"
    demoComponentName demo = .ok "Card" ∧
      (∃ facts, analyzeSource {} "demo" demo = .ok facts ∧ "Card" ∉ facts.exportedNames) ∧
      ∃ analysis, analyzeSubmission {} "export const Card = 1" demo ∅ ∅ = .ok analysis ∧
        analysis.demoExportName = "Card" ∧
        ∃ facts, analyzeSource {} "demo" analysis.demo = .ok facts ∧
          "Card" ∉ facts.exportedNames := by
  intro demo
  have entry : demoComponentName demo = .ok "Card" := by decide +kernel
  have names : (analyzeSource {} "demo" demo).toOption.map (fun f => f.exportedNames) =
      some [] := by
    decide +kernel
  have analyzed : (analyzeSubmission {} "export const Card = 1" demo ∅ ∅).toOption.map
      (fun a => (a.demoExportName, a.demo)) = some ("Card", demo) := by
    decide +kernel
  obtain ⟨facts, hfacts, hnames⟩ := exists_of_toOption_map names
  obtain ⟨analysis, h, hanalysis⟩ := exists_of_toOption_map analyzed
  obtain ⟨hname, hdemo⟩ := Prod.mk.inj hanalysis
  have missing : "Card" ∉ facts.exportedNames := by simp [hnames]
  exact ⟨entry, ⟨facts, hfacts, missing⟩, analysis, h, hname, facts, hdemo ▸ hfacts, missing⟩

end ComponentRegistry
