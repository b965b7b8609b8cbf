import Mathlib.Data.List.Nodup
import ComponentRegistry.Proofs.Store.Columns
import ComponentRegistry.Proofs.Submission
import ComponentRegistry.Store.Publication

/-! # What a revision changes

The part of a patch that would change an entry is enough: once it is applied, the entry has every
value that the whole patch asks for.
-/

namespace ComponentRegistry

namespace Value

theorem strings_inj {names others : List String} (h : strings names = strings others) :
    names = others := by
  have := congrArg texts? h
  rwa [texts?_strings, texts?_strings, Option.some_inj] at this

theorem ofTextMap_inj {m n : OrderedMap String String} (h : ofTextMap m = ofTextMap n) :
    m = n := by
  have := congrArg textMap? h
  rwa [textMap?_ofTextMap, textMap?_ofTextMap, Option.some_inj] at this

theorem ofOptionalText_inj {s t : Option String}
    (h : (s.map string).getD .null = (t.map string).getD .null) : s = t := by
  cases s <;> cases t <;> simp_all

end Value

namespace EntryChange

theorem isMet_apply (e : Entry) (c : EntryChange) : c.isMet (apply e c) = true := by
  cases c <;> simp [isMet, apply, OrderedMap.sameContent_self]

/-- Whether a change is met shows in the column of its field. -/
theorem isMet_congr {e e' : Entry} {c : EntryChange}
    (h : (Row.ofEntry e').column c.field = (Row.ofEntry e).column c.field) :
    c.isMet e' = c.isMet e := by
  cases c with
  | name | registry | codeRef | demoRef | demoExportName =>
    simp_all [field, isMet, Row.column, Row.ofEntry]
  | exportedNames =>
    have := Value.strings_inj h
    simp_all [isMet]
  | external | demoExternal | internal =>
    have := Value.ofTextMap_inj h
    simp_all [isMet]
  | description =>
    have := Value.ofOptionalText_inj h
    simp_all [isMet, Row.ofEntry]

open EntryPatch

/-- Changes of different fields do not undo each other. -/
theorem isMet_foldl {pairs : List (String × Value)} (distinct : (pairs.map Prod.fst).Nodup)
    {changes : List EntryChange} (h : pairs.mapM change? = some changes) {pair : String × Value}
    (mem : pair ∈ pairs) {c : EntryChange} (hc : change? pair = some c) (e : Entry) :
    c.isMet (changes.foldl apply e) = true := by
  induction pairs generalizing changes e with
  | nil => cases mem
  | cons first rest ih =>
    obtain ⟨d, others, hd, hothers, rfl⟩ := mapM_change?_cons h
    obtain ⟨new, distinct⟩ := List.nodup_cons.1 distinct
    rw [List.foldl_cons]
    rcases List.mem_cons.1 mem with rfl | mem
    · cases hd.symm.trans hc
      have untouched : ∀ x ∈ others, x.field ≠ c.field := by
        intro x hx same
        apply new
        rw [← key_of_change? hc, ← same]
        exact mem_keys_of_changes? hothers hx
      rw [isMet_congr (column_foldl_apply (apply e c) others untouched)]
      exact isMet_apply e c
    · exact ih distinct hothers mem (apply e d)

end EntryChange

namespace Entry

variable {e e' : Entry} {p changed : EntryPatch} {pairs kept : List (String × Value)}
  {pair : String × Value} {c : EntryChange}

theorem hasValue_of_change? (hc : EntryPatch.change? pair = some c) {field : EntryField}
    (hfield : EntryField.ofKey? pair.1 = some field) : e.hasValue field pair.2 = c.isMet e := by
  rw [EntryPatch.change?, hfield, Option.bind_some] at hc
  rw [hasValue, hc]

/-- What is left out of a patch is what the entry has already. -/
theorem changedPairs_eq_ok (h : e.changedPairs pairs = .ok kept) :
    kept.Sublist pairs ∧ ∀ pair ∈ pairs, pair ∈ kept ∨
      ∀ c, EntryPatch.change? pair = some c → c.isMet e = true := by
  induction pairs generalizing kept with
  | nil =>
    cases h
    exact ⟨.slnil, by simp⟩
  | cons first rest ih =>
    obtain ⟨key, value⟩ := first
    rw [changedPairs] at h
    split at h
    · cases h
    · next field hfield =>
      obtain ⟨others, hothers, h⟩ := bind_eq_ok.1 h
      obtain ⟨hsub, hmet⟩ := ih hothers
      cases h
      by_cases hvalue : e.hasValue field value = true
      · rw [if_pos hvalue]
        refine ⟨hsub.cons _, List.forall_mem_cons.2 ⟨.inr fun c hc => ?_, hmet⟩⟩
        rw [← hasValue_of_change? hc hfield, hvalue]
      · rw [if_neg hvalue]
        refine ⟨hsub.cons_cons _, List.forall_mem_cons.2 ⟨.inl List.mem_cons_self, ?_⟩⟩
        intro pair hpair
        exact (hmet pair hpair).imp_left (List.mem_cons_of_mem _)

theorem changedFields_eq_ok (h : e.changedFields p = .ok changed) :
    changed.pairs.Sublist p.pairs ∧ ∀ pair ∈ p.pairs, pair ∈ changed.pairs ∨
      ∀ c, EntryPatch.change? pair = some c → c.isMet e = true := by
  obtain ⟨kept, hkept, rfl⟩ := map_eq_ok.1 h
  obtain ⟨hsub, hmet⟩ := changedPairs_eq_ok hkept
  rw [OrderedMap.pairs_ofPairs_of_nodup (p.nodup_keys.sublist (hsub.map Prod.fst))]
  exact ⟨hsub, hmet⟩

/-- A patched entry has all that the patch asks for. -/
theorem isMet_of_patched {expected : Int} (hp : e.patched p expected = .ok e')
    (mem : pair ∈ p.pairs) (hc : EntryPatch.change? pair = some c) : c.isMet e' = true := by
  obtain ⟨-, -, -, changes, hchanges, rfl⟩ := patched_eq_ok hp
  rw [EntryPatch.changes?_eq_mapM] at hchanges
  rw [← EntryChange.isMet_foldl p.nodup_keys hchanges mem hc e]
  apply EntryChange.isMet_congr
  cases c.field <;> rfl

theorem isMet_of_patched_changedFields (h : e.changedFields p = .ok changed) {expected : Int}
    (hp : e.patched changed expected = .ok e') (mem : pair ∈ p.pairs)
    (hc : EntryPatch.change? pair = some c) : c.isMet e' = true := by
  obtain ⟨hsub, hmet⟩ := changedFields_eq_ok h
  by_cases hpair : pair ∈ changed.pairs
  · exact isMet_of_patched hp hpair hc
  · have unnamed : c.field.key ∉ changed.keys := by
      intro hkey
      rw [EntryPatch.key_of_change? hc] at hkey
      obtain ⟨other, hother, same⟩ := List.mem_map.1 hkey
      have := List.inj_on_of_nodup_map p.nodup_keys (hsub.subset hother) mem same
      exact hpair (this ▸ hother)
    rw [EntryChange.isMet_congr (column_of_patched hp unnamed)]
    exact (hmet pair mem).resolve_left hpair c hc

end Entry

namespace SubmissionAnalysis

variable (analysis : SubmissionAnalysis) (codeRef demoRef : String)

theorem pairs_patch : (analysis.patch codeRef demoRef).pairs =
    [("code_ref", .string codeRef), ("demo_ref", .string demoRef),
      ("exported_names", .strings analysis.exportedNames),
      ("demo_export_name", .string analysis.demoExportName),
      ("external_dependencies", .ofTextMap analysis.external),
      ("demo_external_dependencies", .ofTextMap analysis.demoExternal),
      ("internal_dependencies", .ofTextMap analysis.internal)] := by
  apply OrderedMap.pairs_ofPairs_of_nodup
  simp only [List.map_cons, List.map_nil]
  decide

/-- An entry that has what an analysis asks for says what the analysis says. -/
theorem like_of_isMet {e : Entry}
    (h : ∀ pair ∈ (analysis.patch codeRef demoRef).pairs, ∀ c,
      EntryPatch.change? pair = some c → c.isMet e = true) :
    e.codeRef = codeRef ∧ e.demoRef = demoRef ∧ e.metadata.Like analysis.metadata := by
  simp only [pairs_patch, List.forall_mem_cons] at h
  obtain ⟨hcode, hdemo, hnames, hrender, hexternal, hdemoExternal, hinternal, -⟩ := h
  have texts {m : OrderedMap String String} {f : OrderedMap String String → EntryChange} :
      (Value.ofTextMap m).textMap?.map f = some (f m) := by
    rw [Value.textMap?_ofTextMap, Option.map_some]
  have names : (Value.strings analysis.exportedNames).texts?.map EntryChange.exportedNames =
      some (.exportedNames analysis.exportedNames) := by
    rw [Value.texts?_strings, Option.map_some]
  refine ⟨beq_iff_eq.1 (hcode (.codeRef codeRef) rfl), beq_iff_eq.1 (hdemo (.demoRef demoRef) rfl),
    ?_, ?_, ?_, ?_, ?_⟩
  · exact beq_iff_eq.1 (hnames _ names)
  · exact beq_iff_eq.1 (hrender (.demoExportName analysis.demoExportName) rfl)
  · exact OrderedMap.mem_keys_of_sameContent (hexternal _ texts)
  · exact OrderedMap.mem_keys_of_sameContent (hdemoExternal _ texts)
  · exact OrderedMap.mem_keys_of_sameContent (hinternal _ texts)

end SubmissionAnalysis

end ComponentRegistry
