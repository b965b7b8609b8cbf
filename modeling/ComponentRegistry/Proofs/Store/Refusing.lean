import ComponentRegistry.Proofs.Store.Metadata

/-! # Refusals leave no trace

A request that is refused leaves the store as it was. Storing a source text cannot be undone, so a
submission is stored only when nothing can go wrong any more: whatever is looked at after the first
source text was looked at before it, or follows from how the entry and its patch are put together.
The one exception are labels that cannot be written.
-/

namespace ComponentRegistry

theorem exists_mapM_eq_some {f : α → Option β} {items : List α}
    (h : ∀ a ∈ items, ∃ b, f a = some b) : ∃ results, items.mapM f = some results := by
  induction items with
  | nil => exact ⟨[], rfl⟩
  | cons a rest ih =>
    obtain ⟨⟨b, hb⟩, hrest⟩ := List.forall_mem_cons.1 h
    obtain ⟨results, hresults⟩ := ih hrest
    exact ⟨b :: results, by simp [List.mapM_cons, hb, hresults]⟩

/-- A patch that names only fields that may change, and gives each a value of its type. -/
def EntryPatch.Typed (p : EntryPatch) : Prop := ∀ pair ∈ p.pairs, ∃ c, change? pair = some c

/-- A patch that fits every entry: it calls for a change with every pair, and leaves no internal
dependency unknown. -/
structure EntryPatch.Applicable (p : EntryPatch) : Prop where
  typed : ∀ pair ∈ p.pairs, ∃ c, change? pair = some c
  publishable : p.check = .ok ()

namespace EntryPatch

variable {p changed : EntryPatch} {pair : String × Value}

theorem exists_ofKey? {c : EntryChange} (h : change? pair = some c) :
    ∃ field, EntryField.ofKey? pair.1 = some field := by
  obtain ⟨field, hfield, -⟩ := Option.bind_eq_some_iff.1 h
  exact ⟨field, hfield⟩

namespace Typed

theorem fixedNames_eq_nil (h : p.Typed) : p.fixedNames = [] := by
  apply List.filter_eq_nil_iff.2
  intro key hkey
  obtain ⟨pair, hpair, rfl⟩ := List.mem_map.1 hkey
  obtain ⟨c, hc⟩ := h pair hpair
  obtain ⟨field, hfield⟩ := exists_ofKey? hc
  simp [hfield]

/-- Nothing but the gate can refuse such a patch, if the entry has not moved on. -/
theorem exists_patched_eq (h : p.Typed) {e : Entry} {expected : Int}
    (hversion : (e.version : Int) = expected) :
    ∃ updated, e.patched p expected = p.check.map fun _ => updated := by
  obtain ⟨changes, hchanges⟩ := exists_mapM_eq_some h
  rw [← changes?_eq_mapM] at hchanges
  refine ⟨{ changes.foldl EntryChange.apply e with version := e.version + 1 }, ?_⟩
  unfold Entry.patched
  rw [if_neg (not_not.2 hversion), h.fixedNames_eq_nil, hchanges]
  cases p.check <;> rfl

theorem exists_changedFields (h : p.Typed) (e : Entry) :
    ∃ changed, e.changedFields p = .ok changed := by
  have hpairs : ∀ pairs : List (String × Value), (∀ pair ∈ pairs, ∃ c, change? pair = some c) →
      ∃ kept, e.changedPairs pairs = .ok kept := by
    intro pairs typed
    induction pairs with
    | nil => exact ⟨[], rfl⟩
    | cons pair rest ih =>
      obtain ⟨⟨c, hc⟩, hrest⟩ := List.forall_mem_cons.1 typed
      obtain ⟨field, hfield⟩ := exists_ofKey? hc
      obtain ⟨kept, hkept⟩ := ih hrest
      rw [Entry.changedPairs, hfield, hkept]
      exact ⟨_, rfl⟩
  obtain ⟨kept, hkept⟩ := hpairs p.pairs h
  exact ⟨_, map_eq_ok.2 ⟨kept, hkept, rfl⟩⟩

end Typed

namespace Applicable

theorem of_sublist (h : p.Applicable) (sub : changed.pairs.Sublist p.pairs) :
    changed.Applicable where
  typed pair hpair := h.typed pair (sub.subset hpair)
  publishable := by
    unfold check
    cases hvalue : changed.get? EntryField.internal.key with
    | none => rfl
    | some value =>
      have hfull : p.get? EntryField.internal.key = some value :=
        OrderedMap.get?_eq_some_iff.2 (sub.subset (OrderedMap.get?_eq_some_iff.1 hvalue))
      have hcheck := h.publishable
      rw [check, hfull] at hcheck
      exact hcheck

theorem exists_patched (h : p.Applicable) {e : Entry} {expected : Int}
    (hversion : (e.version : Int) = expected) : ∃ updated, e.patched p expected = .ok updated := by
  obtain ⟨updated, hupdated⟩ := Typed.exists_patched_eq h.typed hversion
  exact ⟨updated, by rw [hupdated, h.publishable]; rfl⟩

theorem exists_changedFields (h : p.Applicable) (e : Entry) :
    ∃ changed, e.changedFields p = .ok changed ∧ changed.Applicable := by
  obtain ⟨changed, hchanged⟩ := Typed.exists_changedFields h.typed e
  exact ⟨changed, hchanged, h.of_sublist (Entry.changedFields_eq_ok hchanged).1⟩

end Applicable

end EntryPatch

/-- What a publishable submission makes of an entry fits it. -/
theorem SubmissionAnalysis.applicable_patch {analysis : SubmissionAnalysis}
    (h : analysis.internal.checkPublishable = .ok ()) (codeRef demoRef : String) :
    (analysis.patch codeRef demoRef).Applicable where
  typed := by
    have texts {m : OrderedMap String String} {f : OrderedMap String String → EntryChange} :
        ∃ c, (Value.ofTextMap m).textMap?.map f = some c :=
      ⟨f m, by rw [Value.textMap?_ofTextMap, Option.map_some]⟩
    have names : ∃ c, (Value.strings analysis.exportedNames).texts?.map EntryChange.exportedNames =
        some c := ⟨_, by rw [Value.texts?_strings, Option.map_some]⟩
    simp only [analysis.pairs_patch, List.forall_mem_cons]
    exact ⟨⟨.codeRef codeRef, rfl⟩, ⟨.demoRef demoRef, rfl⟩, names,
      ⟨.demoExportName analysis.demoExportName, rfl⟩, texts, texts, texts, by simp⟩
  publishable := by
    have hvalue : (analysis.patch codeRef demoRef).get? EntryField.internal.key =
        some (.ofTextMap analysis.internal) := by
      rw [OrderedMap.get?_eq_some_iff, analysis.pairs_patch]
      simp [EntryField.key]
    rw [EntryPatch.check, hvalue]
    simp only [Value.ofTextMap, EntryPatch.checkInternal, Value.textPairs?_map,
      OrderedMap.ofPairs_pairs, h]
    rfl

section Operations

variable {σ : Type} {store : σ} {α β : Type} {x : StoreM σ α}

/-- An operation that leaves the store as it was when it fails. -/
def Atomic (store : σ) (x : StoreM σ α) : Prop :=
  ∀ e, (x.run store).1 = .error e → (x.run store).2 = store

/-- An operation that cannot fail, and what is known when it is over. -/
def Succeeds (store : σ) (x : StoreM σ α) (post : α → σ → Prop) : Prop :=
  ∃ a store', x.run store = (.ok a, store') ∧ post a store'

namespace Succeeds

variable {post : α → σ → Prop} {f : α → StoreM σ β} {last : β → σ → Prop}

theorem atomic (post : α → σ → Prop) (h : Succeeds store x post) : Atomic store x := by
  obtain ⟨a, store', hrun, -⟩ := h
  intro e he
  rw [hrun] at he
  cases he

theorem bind (h : Succeeds store x post)
    (next : ∀ a store', post a store' → Succeeds store' (f a) last) :
    Succeeds store (x >>= f) last := by
  obtain ⟨a, store', hrun, hpost⟩ := h
  obtain ⟨b, store'', hnext, hlast⟩ := next a store' hpost
  exact ⟨b, store'', by rw [StoreM.run_bind, hrun]; exact hnext, hlast⟩

theorem pure {a : α} (h : post a store) : Succeeds store (pure a) post :=
  ⟨a, store, rfl, h⟩

theorem lift_bind {r : Except Failure α} {a : α} (hr : r = .ok a)
    (h : Succeeds store (f a) last) : Succeeds store (StoreM.lift r >>= f) last := by
  subst hr
  obtain ⟨b, store', hrun, hpost⟩ := h
  exact ⟨b, store', hrun, hpost⟩

theorem get_bind {f : σ → StoreM σ α} (h : Succeeds store (f store) post) :
    Succeeds store (get >>= f) post := by
  obtain ⟨a, store', hrun, hpost⟩ := h
  exact ⟨a, store', by rw [StoreM.run_bind]; exact hrun, hpost⟩

end Succeeds

namespace Atomic

theorem pure (a : α) : Atomic store (Pure.pure a : StoreM σ α) :=
  fun _ he => by cases he

theorem refuse (e : RegistryError) : Atomic store (StoreM.refuse e : StoreM σ α) :=
  fun _ _ => rfl

theorem lift_bind {r : Except Failure α} {f : α → StoreM σ β}
    (h : ∀ a, r = .ok a → Atomic store (f a)) : Atomic store (StoreM.lift r >>= f) := by
  unfold Atomic at h ⊢
  rw [StoreM.run_bind, StoreM.run_lift]
  cases hr : r with
  | error e => exact fun _ _ => rfl
  | ok a => exact h a hr

theorem get_bind {f : σ → StoreM σ α} (h : Atomic store (f store)) :
    Atomic store (get >>= f) := by
  unfold Atomic at h ⊢
  rw [StoreM.run_bind]
  exact h

theorem map (h : Atomic store x) (f : α → β) :
    Atomic store (do Pure.pure (f (← x))) := by
  unfold Atomic at h ⊢
  rw [StoreM.run_bind]
  rcases hx : x.run store with ⟨result, store'⟩
  rw [hx] at h
  cases result with
  | error e => exact fun _ _ => h e rfl
  | ok a => exact fun _ he => by cases he

end Atomic

end Operations

namespace MemoryStore

variable [RefSupply] {m : MemoryStore}

/-- Storing a source text cannot fail, and the entries stay as they are. -/
theorem succeeds_putSource (m : MemoryStore) (name text : String) :
    Succeeds m (RegistryStore.putSource name text) fun _ m' => m'.entries = m.entries :=
  ⟨_, _, rfl, rfl⟩

theorem succeeds_keepSource (m : MemoryStore) (ref name text : String) :
    Succeeds m (RegistryStore.keepSource ref name text) fun _ m' => m'.entries = m.entries := by
  apply Succeeds.get_bind
  split
  · exact .pure rfl
  · exact succeeds_putSource m name text

theorem succeeds_createEntry {e : Entry} (hcheck : e.internal.checkPublishable = .ok ())
    (hfree : m.entries.contains e.identifier = false) :
    Succeeds m (RegistryStore.createEntry e) fun _ _ => True := by
  refine .lift_bind (a := ()) (by rw [hcheck]; rfl) ?_
  apply Succeeds.get_bind
  rw [if_neg (by simp [hfree])]
  exact ⟨_, _, rfl, trivial⟩

theorem atomic_createEntry (m : MemoryStore) (e : Entry) :
    Atomic m (RegistryStore.createEntry e) := by
  refine .lift_bind fun _ _ => ?_
  apply Atomic.get_bind
  split
  · exact .refuse _
  · exact fun _ he => by cases he

theorem succeeds_updateEntry {i : Identifier} {current updated : Entry} {p : EntryPatch}
    {expected : Int} (hread : m.entries.get? i = some current)
    (hp : current.patched p expected = .ok updated) :
    Succeeds m (RegistryStore.updateEntry i p expected) fun _ _ => True := by
  apply Succeeds.get_bind
  rw [hread]
  exact .lift_bind hp ⟨_, _, rfl, trivial⟩

theorem atomic_updateEntry (m : MemoryStore) (i : Identifier) (p : EntryPatch) (expected : Int) :
    Atomic m (RegistryStore.updateEntry i p expected) := by
  apply Atomic.get_bind
  cases m.entries.get? i with
  | none => exact .refuse _
  | some current => exact .lift_bind fun updated _ => fun _ he => by cases he

/-- Once a submission is publishable and its address is free, nothing can go wrong. -/
theorem atomic_publish (m : MemoryStore) (i : Identifier) (analysis : SubmissionAnalysis)
    (labels : EntryLabels) : Atomic m (RegistryStore.publish i analysis labels) := by
  refine .lift_bind fun _ hgate => ?_
  have hcheck : analysis.internal.checkPublishable = .ok () := mapError_eq_ok.1 hgate
  apply Atomic.get_bind
  split
  · exact .refuse _
  · next hfree =>
    apply Succeeds.atomic fun _ _ => True
    refine (succeeds_putSource m _ _).bind fun codeRef m₁ h₁ => ?_
    refine (succeeds_putSource m₁ _ _).bind fun demoRef m₂ h₂ => ?_
    refine .lift_bind (mapError_eq_ok.2 (bind_eq_ok.2 ⟨(), hcheck, rfl⟩)) ?_
    apply succeeds_createEntry hcheck
    rw [h₂, h₁]
    cases hmem : m.entries.contains i with
    | false => exact hmem
    | true =>
      exfalso
      apply hfree
      obtain ⟨pair, hpair, rfl⟩ := List.mem_map.1 (List.contains_iff_mem.1 hmem)
      exact Option.isSome_iff_exists.2 ⟨_, OrderedMap.get?_eq_some_iff.2 hpair⟩

/-- Once the new texts are analyzed and publishable, nothing can go wrong: the patch fits the entry,
and the entry still has the version that it was read with. -/
theorem atomic_revise (m : MemoryStore) (settings : AnalysisSettings) (i : Identifier)
    (component demo : String) (slugs : InternalDependencies) (known : OrderedMap String String) :
    Atomic m (RegistryStore.revise settings i component demo slugs known) := by
  apply Atomic.get_bind
  cases hcurrent : RegistryStore.entryAt? m i with
  | none => exact .refuse _
  | some current =>
    refine .lift_bind fun analysis _ => .lift_bind fun _ hgate => ?_
    have hcheck : analysis.internal.checkPublishable = .ok () := mapError_eq_ok.1 hgate
    apply Succeeds.atomic fun _ _ => True
    refine (succeeds_keepSource m _ _ _).bind fun codeRef m₁ h₁ => ?_
    refine (succeeds_keepSource m₁ _ _ _).bind fun demoRef m₂ h₂ => ?_
    obtain ⟨changed, hchanged, happlicable⟩ :=
      (analysis.applicable_patch hcheck codeRef demoRef).exists_changedFields current
    refine .lift_bind hchanged ?_
    split
    · exact .pure trivial
    · obtain ⟨updated, hupdated⟩ := happlicable.exists_patched (e := current) rfl
      have hread : m₂.entries.get? i = some current := by
        rw [h₂, h₁]
        exact hcurrent
      exact succeeds_updateEntry hread hupdated

theorem atomic_answer (m : MemoryStore) (request : StoreRequest) : Atomic m request.answer := by
  cases request with
  | putSource name text => exact ((succeeds_putSource m name text).atomic _).map StoreAnswer.ref
  | getSource | sourceText | entryAt | listEntries => exact .get_bind (.pure _)
  | createEntry e => exact (atomic_createEntry m e).map StoreAnswer.entry
  | updateEntry i p expected => exact (atomic_updateEntry m i p expected).map StoreAnswer.entry
  | publish i analysis labels => exact (atomic_publish m i analysis labels).map StoreAnswer.entry
  | revise settings i component demo slugs known =>
    exact (atomic_revise m settings i component demo slugs known).map StoreAnswer.entry

end MemoryStore

namespace Mirrors

variable [RefSupply] {m : MemoryStore} {t t' : TableStore}

/-- A store in memory has only one mirror. -/
theorem unique (h : Mirrors m t) (h' : Mirrors m t') : t = t' := by
  obtain ⟨sources, rows⟩ := t
  obtain ⟨sources', rows'⟩ := t'
  obtain rfl : sources = sources' := h.sources.trans h'.sources.symm
  obtain rfl : rows = rows' := h.rows.trans h'.rows.symm
  rfl

theorem atomic_answer (h : Mirrors m t) (request : StoreRequest) : Atomic t request.answer := by
  intro e he
  obtain ⟨hresult, hmirrors⟩ := h.answer request
  have hfailed : (StoreM.run request.answer m).1 = .error e := by
    rw [he] at hresult
    generalize (StoreM.run request.answer m).1 = result at hresult
    cases hresult
    rfl
  rw [MemoryStore.atomic_answer m request e hfailed] at hmirrors
  exact hmirrors.unique h

end Mirrors

end ComponentRegistry
