import ComponentRegistry.Proofs.Store.Refusing

/-! # Revisions that change nothing

A revision that is made twice changes nothing the second time, and neither does one that brings what
was published. What the first request leaves behind has all that the second one asks for: the same
texts are in their places, the entry meets the patch, and what it says about local paths makes the
analysis come out as before.
-/

namespace ComponentRegistry

namespace Entry

/-- What an entry has already is no part of a patch. -/
theorem changedFields_of_isMet {e : Entry} {p : EntryPatch}
    (h : ∀ pair ∈ p.pairs, ∃ c, EntryPatch.change? pair = some c ∧ c.isMet e = true) :
    e.changedFields p = .ok ∅ := by
  have none : ∀ pairs : List (String × Value),
      (∀ pair ∈ pairs, ∃ c, EntryPatch.change? pair = some c ∧ c.isMet e = true) →
      e.changedPairs pairs = .ok [] := by
    intro pairs met
    induction pairs with
    | nil => rfl
    | cons pair rest ih =>
      obtain ⟨⟨c, hc, hmet⟩, hrest⟩ := List.forall_mem_cons.1 met
      obtain ⟨field, hfield⟩ := EntryPatch.exists_ofKey? hc
      have has : e.hasValue field pair.2 = true := (hasValue_of_change? hc hfield).trans hmet
      simp only [changedPairs, hfield, ih hrest, has, if_true]
      rfl
  rw [changedFields, none p.pairs h]
  rfl

end Entry

/-- An entry with the fields of an analysis has all that the analysis asks for. -/
theorem SubmissionAnalysis.isMet_patch (analysis : SubmissionAnalysis) {codeRef demoRef : String}
    {e : Entry} (code : e.codeRef = codeRef) (demo : e.demoRef = demoRef)
    (names : e.exportedNames = analysis.exportedNames)
    (render : e.demoExportName = analysis.demoExportName)
    (external : e.external = analysis.external) (demoExternal : e.demoExternal = analysis.demoExternal)
    (internal : e.internal = analysis.internal) :
    ∀ pair ∈ (analysis.patch codeRef demoRef).pairs, ∀ c,
      EntryPatch.change? pair = some c → c.isMet e = true := by
  simp only [analysis.pairs_patch, List.forall_mem_cons]
  simp [EntryPatch.change?, EntryField.ofKey?, EntryField.all, EntryField.key,
    EntryChange.ofValue?, EntryChange.isMet, Value.string?, Value.texts?_strings,
    Value.textMap?_ofTextMap, OrderedMap.sameContent_self, code, demo, names, render, external, demoExternal, internal]

section

variable {σ : Type} [RegistryStore σ]

/-- An entry that has all that an analysis asks for, in a store that has the texts. -/
structure Entry.Realizes (e : Entry) (analysis : SubmissionAnalysis) (store : σ) (i : Identifier) :
    Prop where
  stored : RegistryStore.entryAt? store i = some e
  publishable : analysis.internal.checkPublishable = .ok ()
  code : RegistryStore.sourceText? store e.codeRef = some analysis.component
  demo : RegistryStore.sourceText? store e.demoRef = some analysis.demo
  met : ∀ pair ∈ (analysis.patch e.codeRef e.demoRef).pairs, ∀ c,
    EntryPatch.change? pair = some c → c.isMet e = true

namespace Entry.Realizes

variable {e : Entry} {analysis : SubmissionAnalysis} {store : σ} {i : Identifier}
  {settings : AnalysisSettings} {component demo : String} {slugs existing : InternalDependencies}
  {known : OrderedMap String String}

/-- A revision that asks for nothing new returns the entry and leaves the store as it is. -/
theorem run_revise (h : e.Realizes analysis store i)
    (hanalysis : analyzeSubmission settings component demo (e.internal.insertAll slugs.pairs)
      known = .ok analysis) :
    (RegistryStore.revise settings i component demo slugs known).run store = (.ok e, store) := by
  have keep (ref name text : String) (found : RegistryStore.sourceText? store ref = some text) :
      (RegistryStore.keepSource ref name text).run store = (.ok ref, store) := by
    rw [RegistryStore.keepSource, StoreM.run_bind, StoreM.run_get]
    simp only [found, if_true]
    rfl
  have typed := (analysis.applicable_patch h.publishable e.codeRef e.demoRef).typed
  have unchanged : e.changedFields (analysis.patch e.codeRef e.demoRef) = .ok ∅ := by
    apply changedFields_of_isMet
    intro pair mem
    obtain ⟨c, hc⟩ := typed pair mem
    exact ⟨c, hc, h.met pair mem c hc⟩
  simp only [RegistryStore.revise, StoreM.run_bind, StoreM.run_get, h.stored, StoreM.run_lift,
    hanalysis, h.publishable, Except.mapError, keep _ _ _ h.code, keep _ _ _ h.demo, unchanged]
  rfl

/-- What an entry says about local paths is what they were known to stand for. -/
theorem internal (h : e.Realizes analysis store i) :
    e.internal.sameContent analysis.internal = true := by
  have texts : (Value.ofTextMap analysis.internal).textMap?.map EntryChange.internal =
      some (.internal analysis.internal) := by
    rw [Value.textMap?_ofTextMap, Option.map_some]
  refine h.met (EntryField.internal.key, .ofTextMap analysis.internal) ?_ _ texts
  simp [analysis.pairs_patch, EntryField.key]

/-- With what such an entry knows, and the same entries named for local paths, the analysis comes
out as it did. -/
theorem analyzed (h : e.Realizes analysis store i)
    (hanalysis : analyzeSubmission settings component demo existing known = .ok analysis)
    (named : ∀ path value, slugs.get? path = some value → existing.get? path = some value) :
    analyzeSubmission settings component demo (e.internal.insertAll slugs.pairs) known =
      .ok analysis := by
  apply analyzeSubmission_congr hanalysis
  intro path mem
  rw [OrderedMap.get?_insertAll]
  cases given : slugs.get? path with
  | some value => rw [named path value given, Option.some_or]
  | none =>
    rw [Option.none_or, OrderedMap.get?_of_sameContent h.internal,
      get?_internal_of_analyzeSubmission hanalysis mem, Option.getD_some]

theorem again (h : e.Realizes analysis store i)
    (hanalysis : analyzeSubmission settings component demo existing known = .ok analysis)
    (named : ∀ path value, slugs.get? path = some value → existing.get? path = some value) :
    RegistryStore.entryAt? store i = some e ∧
      (RegistryStore.revise settings i component demo slugs known).run store = (.ok e, store) :=
  ⟨h.stored, h.run_revise (h.analyzed hanalysis named)⟩

end Entry.Realizes

/-- A store in which the next revision with the same texts finds nothing to do. -/
structure Settles (store : σ) : Prop where
  /-- A revision that is made again returns what it has stored. -/
  revised : ∀ {settings : AnalysisSettings} {i : Identifier} {component demo : String}
    {slugs : InternalDependencies} {known : OrderedMap String String} {e : Entry} {store' : σ},
    (RegistryStore.revise settings i component demo slugs known).run store = (.ok e, store') →
      RegistryStore.entryAt? store' i = some e ∧
        (RegistryStore.revise settings i component demo slugs known).run store' = (.ok e, store')
  /-- A revision with the texts of a publication, which names no entries, returns what was
  published. -/
  published : ∀ {settings : AnalysisSettings} {i : Identifier} {component demo : String}
    {existing : InternalDependencies} {known : OrderedMap String String}
    {analysis : SubmissionAnalysis} {labels : EntryLabels} {e : Entry} {store' : σ},
    analyzeSubmission settings component demo existing known = .ok analysis →
    (RegistryStore.publish i analysis labels).run store = (.ok e, store') →
      RegistryStore.entryAt? store' i = some e ∧
        (RegistryStore.revise settings i component demo ∅ known).run store' = (.ok e, store')

end

section Stores

variable [RefSupply] {m m' : MemoryStore} {i : Identifier} {analysis : SubmissionAnalysis}

theorem Mirrors.realizes {t : TableStore} (h : Mirrors m t) {e : Entry}
    (realizes : e.Realizes analysis m i) : e.Realizes analysis t i where
  stored := (h.entryAt?_eq i).symm.trans realizes.stored
  publishable := realizes.publishable
  code := (h.sourceText?_eq _).symm.trans realizes.code
  demo := (h.sourceText?_eq _).symm.trans realizes.demo
  met := realizes.met

namespace MemoryStore

theorem run_updateEntry_eq_ok {p : EntryPatch} {expected : Int} {e : Entry}
    (h : (RegistryStore.updateEntry i p expected).run m = (.ok e, m')) :
    ∃ current, m.entries.get? i = some current ∧ current.patched p expected = .ok e ∧
      m' = { m with entries := m.entries.insert i e } := by
  change (updateEntry i p expected).run m = _ at h
  unfold updateEntry at h
  obtain ⟨_, _, ⟨⟩, h⟩ := StoreM.run_bind_eq_ok.1 h
  cases hcurrent : m.entries.get? i with
  | none =>
    rw [hcurrent] at h
    cases h
  | some current =>
    rw [hcurrent] at h
    obtain ⟨updated, hupdated, h⟩ := StoreM.run_lift_bind_eq_ok.1 h
    cases h
    exact ⟨current, rfl, hupdated, rfl⟩

theorem run_createEntry_eq_ok {new e : Entry}
    (h : (RegistryStore.createEntry new).run m = (.ok e, m')) :
    e = { new with version := 1 } ∧
      m' = { m with entries := m.entries.insert new.identifier e } := by
  obtain ⟨_, -, h⟩ := StoreM.run_lift_bind_eq_ok.1 h
  obtain ⟨_, _, ⟨⟩, h⟩ := StoreM.run_bind_eq_ok.1 h
  split at h
  · cases h
  · cases h
    exact ⟨rfl, rfl⟩

/-- What is in its place stays there, and what is not is stored. -/
theorem Numbered.keeps (h : m.Numbered) (ref name text : String) :
    ∃ kept m', (RegistryStore.keepSource ref name text).run m = (.ok kept, m') ∧ m'.Numbered ∧
      StillHas m m' ∧ RegistryStore.sourceText? m' kept = some text ∧ m'.entries = m.entries := by
  rw [RegistryStore.keepSource, StoreM.run_bind, StoreM.run_get]
  dsimp only
  split
  · next same => exact ⟨ref, m, rfl, h, .refl m, same, rfl⟩
  · exact h.stores name text

variable {settings : AnalysisSettings} {component demo : String} {slugs : InternalDependencies}
  {known : OrderedMap String String} {e : Entry}

theorem Numbered.realizes_of_revise (h : m.Numbered)
    (hrun : (RegistryStore.revise settings i component demo slugs known).run m = (.ok e, m')) :
    ∃ (current : Entry) (analysis : SubmissionAnalysis),
      analyzeSubmission settings component demo (current.internal.insertAll slugs.pairs) known =
        .ok analysis ∧ e.Realizes analysis m' i := by
  obtain ⟨_, _, ⟨⟩, hrun⟩ := StoreM.run_bind_eq_ok.1 hrun
  cases hcurrent : RegistryStore.entryAt? m i with
  | none =>
    rw [hcurrent] at hrun
    cases hrun
  | some current =>
    rw [hcurrent] at hrun
    obtain ⟨analysis, hanalysis, hrun⟩ := StoreM.run_lift_bind_eq_ok.1 hrun
    obtain ⟨_, gate, hrun⟩ := StoreM.run_lift_bind_eq_ok.1 hrun
    obtain ⟨codeRef, m₁, hcodeRun, numbered₁, -, hcode, entries₁⟩ :=
      h.keeps current.codeRef i.codeName analysis.component
    obtain ⟨demoRef, m₂, hdemoRun, -, kept, hdemo, entries₂⟩ :=
      numbered₁.keeps current.demoRef i.demoName analysis.demo
    obtain ⟨_, _, same, hrun⟩ := StoreM.run_bind_eq_ok.1 hrun
    cases hcodeRun.symm.trans same
    obtain ⟨_, _, same, hrun⟩ := StoreM.run_bind_eq_ok.1 hrun
    cases hdemoRun.symm.trans same
    obtain ⟨changed, hchanged, hrun⟩ := StoreM.run_lift_bind_eq_ok.1 hrun
    refine ⟨current, analysis, hanalysis, ?_⟩
    have hread : m₂.entries.get? i = some current := by
      rw [entries₂, entries₁]
      exact hcurrent
    -- The entry meets the patch: it did so before, or it was patched.
    have settled : RegistryStore.entryAt? m' i = some e ∧
        (∀ ref, RegistryStore.sourceText? m' ref = RegistryStore.sourceText? m₂ ref) ∧
        ∀ pair ∈ (analysis.patch codeRef demoRef).pairs, ∀ c,
          EntryPatch.change? pair = some c → c.isMet e = true := by
      split at hrun
      · next nothing =>
        cases hrun
        refine ⟨hread, fun _ => rfl, fun pair mem => ?_⟩
        have absent : pair ∉ changed.pairs := by
          rw [List.isEmpty_iff.1 nothing]
          exact List.not_mem_nil
        exact ((Entry.changedFields_eq_ok hchanged).2 pair mem).resolve_left absent
      · obtain ⟨_, same, hupdated, rfl⟩ := run_updateEntry_eq_ok hrun
        cases hread.symm.trans same
        refine ⟨(OrderedMap.get?_insert _ _ _ _).trans (if_pos rfl), fun _ => rfl, ?_⟩
        exact fun pair mem c hc => Entry.isMet_of_patched_changedFields hchanged hupdated mem hc
    obtain ⟨stored, sources, met⟩ := settled
    obtain ⟨rfl, rfl, -⟩ := analysis.like_of_isMet codeRef demoRef met
    refine ⟨stored, mapError_eq_ok.1 gate, ?_, ?_, met⟩
    · rw [sources]
      exact kept.sourceText? hcode
    · rw [sources]
      exact hdemo

theorem Numbered.realizes_of_publish (h : m.Numbered) {labels : EntryLabels}
    (hrun : (RegistryStore.publish i analysis labels).run m = (.ok e, m')) :
    e.Realizes analysis m' i := by
  obtain ⟨_, gate, hrun⟩ := StoreM.run_lift_bind_eq_ok.1 hrun
  obtain ⟨_, _, ⟨⟩, hrun⟩ := StoreM.run_bind_eq_ok.1 hrun
  split at hrun
  · cases hrun
  · obtain ⟨codeRef, m₁, hcodeRun, numbered₁, -, hcode, -⟩ := h.stores i.codeName analysis.component
    obtain ⟨demoRef, m₂, hdemoRun, -, kept, hdemo, -⟩ := numbered₁.stores i.demoName analysis.demo
    obtain ⟨_, _, same, hrun⟩ := StoreM.run_bind_eq_ok.1 hrun
    cases hcodeRun.symm.trans same
    obtain ⟨_, _, same, hrun⟩ := StoreM.run_bind_eq_ok.1 hrun
    cases hdemoRun.symm.trans same
    obtain ⟨new, hnew, hrun⟩ := StoreM.run_lift_bind_eq_ok.1 hrun
    obtain ⟨⟨⟩, -, hnew⟩ := bind_eq_ok.1 (mapError_eq_ok.1 hnew)
    cases hnew
    obtain ⟨rfl, rfl⟩ := run_createEntry_eq_ok hrun
    refine ⟨(OrderedMap.get?_insert _ _ _ _).trans (if_pos rfl), mapError_eq_ok.1 gate,
      kept.sourceText? hcode, hdemo, ?_⟩
    exact analysis.isMet_patch rfl rfl rfl rfl rfl rfl rfl

theorem Numbered.settles (h : m.Numbered) : Settles m where
  revised hrun := by
    obtain ⟨current, analysis, hanalysis, realizes⟩ := h.realizes_of_revise hrun
    exact realizes.again hanalysis fun _ _ => OrderedMap.get?_insertAll_of_get?
  published hanalysis hrun := by
    exact (h.realizes_of_publish hrun).again hanalysis fun _ _ unnamed => by cases unnamed

end MemoryStore

theorem Alike.exists_run {α : Type} {x : StoreM MemoryStore α} {y : StoreM TableStore α}
    {t t' : TableStore} (h : Alike m t x y) {a : α} (hrun : y.run t = (.ok a, t')) :
    ∃ m', x.run m = (.ok a, m') ∧ Mirrors m' t' := by
  obtain ⟨result, mirrors⟩ := h
  rw [hrun] at result mirrors
  exact ⟨_, Prod.ext result rfl, mirrors⟩

/-- What settles in memory settles in a table that mirrors it, for the table holds the same. -/
theorem Mirrors.settles {t : TableStore} (h : Mirrors m t) : Settles t where
  revised hrun := by
    obtain ⟨m', hmemory, mirrors⟩ := (h.revise _ _ _ _ _ _).exists_run hrun
    obtain ⟨current, analysis, hanalysis, realizes⟩ := h.numbered.realizes_of_revise hmemory
    exact (mirrors.realizes realizes).again hanalysis fun _ _ => OrderedMap.get?_insertAll_of_get?
  published hanalysis hrun := by
    obtain ⟨m', hmemory, mirrors⟩ := (h.publish _ _ _).exists_run hrun
    have realizes := mirrors.realizes (h.numbered.realizes_of_publish hmemory)
    exact realizes.again hanalysis fun _ _ unnamed => by cases unnamed

end Stores

end ComponentRegistry
