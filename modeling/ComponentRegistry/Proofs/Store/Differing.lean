import ComponentRegistry.Proofs.Store.Gate
import ComponentRegistry.Proofs.Store.Repeating

/-! # Patching what differs

A patch may leave out what an entry has already. The part of it that differs from the entry changes
the entry as the whole patch does, and is refused when that is: a blank dependency cannot be what a
stored entry has, so it is never left out.
-/

namespace ComponentRegistry

/-- What an entry has in a field, as the change that would put it there. -/
def EntryField.change (e : Entry) : EntryField → EntryChange
  | .name => .name e.name
  | .registry => .registry e.registry
  | .codeRef => .codeRef e.codeRef
  | .demoRef => .demoRef e.demoRef
  | .exportedNames => .exportedNames e.exportedNames
  | .demoExportName => .demoExportName e.demoExportName
  | .external => .external e.external
  | .demoExternal => .demoExternal e.demoExternal
  | .internal => .internal e.internal
  | .description => .description e.description

/-- Entries that say the same. Maps are compared without regard to order. -/
structure Entry.Alike (e f : Entry) : Prop where
  identifier : e.identifier = f.identifier
  version : e.version = f.version
  fields : ∀ field : EntryField, (field.change e).isMet f = true

/-- A patch makes one entry of another: what it names has the value that it asks for, everything else
but the version stays, and the version is one more. -/
structure EntryPatch.Makes (p : EntryPatch) (e e' : Entry) : Prop where
  identifier : e'.identifier = e.identifier
  version : e'.version = e.version + 1
  met : ∀ pair ∈ p.pairs, ∀ c, change? pair = some c → c.isMet e' = true
  kept : ∀ field : EntryField, field.key ∉ p.keys → field.change e' = field.change e

namespace EntryField

variable {e f : Entry} {c : EntryChange}

theorem isMet_change (e : Entry) (field : EntryField) : (field.change e).isMet e = true := by
  cases field <;> simp [change, EntryChange.isMet, OrderedMap.sameContent_self]

theorem ofValue?_column (e : Entry) (field : EntryField) :
    EntryChange.ofValue? field ((Row.ofEntry e).column field) = some (field.change e) := by
  cases field with
  | exportedNames =>
    simp only [EntryChange.ofValue?, Row.column, Row.ofEntry, Value.texts?_strings]
    rfl
  | external | demoExternal | internal =>
    simp only [EntryChange.ofValue?, Row.column, Row.ofEntry, Value.textMap?_ofTextMap]
    rfl
  | description =>
    simp only [EntryChange.ofValue?, Row.column, Row.ofEntry, change]
    cases e.description <;> rfl
  | _ => rfl

theorem change_eq_of_column {field : EntryField}
    (h : (Row.ofEntry f).column field = (Row.ofEntry e).column field) :
    field.change f = field.change e := by
  apply Option.some.inj
  rw [← ofValue?_column, ← ofValue?_column, h]

/-- Entries that both have a value in a field have the same there. -/
theorem isMet_change_of_isMet (he : c.isMet e = true) (hf : c.isMet f = true) :
    (c.field.change e).isMet f = true := by
  cases c with
  | external m | demoExternal m | internal m =>
    simp only [EntryChange.isMet, EntryChange.field, change, OrderedMap.sameContent_iff] at he hf ⊢
    intro key
    rw [hf key, he key]
  | _ =>
    simp only [EntryChange.isMet, EntryChange.field, change, beq_iff_eq] at he hf ⊢
    rw [hf, he]

theorem ofKey?_key (field : EntryField) : ofKey? field.key = some field := by
  cases field <;> decide

end EntryField

namespace EntryPatch

variable {p differing : EntryPatch} {e e' e₁ e₂ : Entry} {m : InternalDependencies}

theorem field_of_change? {field : EntryField} {value : Value} {c : EntryChange}
    (h : change? (field.key, value) = some c) : c.field = field := by
  apply Option.some.inj
  rw [← EntryField.ofKey?_key, ← EntryField.ofKey?_key, key_of_change? h]

theorem exists_change_of_mem_keys (h : p.Typed) {field : EntryField} (mem : field.key ∈ p.keys) :
    ∃ pair ∈ p.pairs, ∃ c, change? pair = some c ∧ c.field = field := by
  obtain ⟨⟨key, value⟩, hpair, rfl⟩ := List.mem_map.1 mem
  obtain ⟨c, hc⟩ := h _ hpair
  exact ⟨_, hpair, c, hc, field_of_change? hc⟩

/-- What a patch makes of an entry is determined, but for the order of maps. -/
theorem Makes.alike (h : p.Typed) (first : p.Makes e e₁) (second : p.Makes e e₂) :
    e₁.Alike e₂ where
  identifier := first.identifier.trans second.identifier.symm
  version := first.version.trans second.version.symm
  fields field := by
    by_cases named : field.key ∈ p.keys
    · obtain ⟨pair, hpair, c, hc, rfl⟩ := exists_change_of_mem_keys h named
      exact EntryField.isMet_change_of_isMet (first.met pair hpair c hc)
        (second.met pair hpair c hc)
    · rw [first.kept field named, ← second.kept field named]
      exact EntryField.isMet_change e₂ field

/-- A patch that has made an entry asks for nothing more. -/
theorem Makes.changedFields_eq (h : p.Typed) (makes : p.Makes e e') :
    e'.changedFields p = .ok ∅ := by
  apply Entry.changedFields_of_isMet
  intro pair hpair
  obtain ⟨c, hc⟩ := h pair hpair
  exact ⟨c, hc, makes.met pair hpair c hc⟩

theorem makes_of_patched {expected : Int} (hp : e.patched p expected = .ok e') : p.Makes e e' where
  identifier := Entry.identifier_of_patched hp
  version := Entry.version_of_patched hp
  met _ mem _ hc := Entry.isMet_of_patched hp mem hc
  kept _ unnamed := EntryField.change_eq_of_column (Entry.column_of_patched hp unnamed)

section Differing

variable (hdiffering : e.changedFields p = .ok differing)
include hdiffering

theorem typed_of_changedFields (h : p.Typed) : differing.Typed := fun pair hpair =>
  h pair ((Entry.changedFields_eq_ok hdiffering).1.subset hpair)

/-- What is left of a patch changes an entry as the whole patch does. -/
theorem makes_of_patched_changedFields {expected : Int}
    (hp : e.patched differing expected = .ok e') : p.Makes e e' where
  identifier := Entry.identifier_of_patched hp
  version := Entry.version_of_patched hp
  met _ mem _ hc := Entry.isMet_of_patched_changedFields hdiffering hp mem hc
  kept field unnamed := by
    apply EntryField.change_eq_of_column
    apply Entry.column_of_patched hp
    intro named
    exact unnamed (((Entry.changedFields_eq_ok hdiffering).1.map Prod.fst).subset named)

/-- Nothing is left of a patch when the entry has all that it asks for, and only then. -/
theorem isEmpty_changedFields_iff (h : p.Typed) : differing.isEmpty = true ↔
    ∀ pair ∈ p.pairs, ∀ c, change? pair = some c → c.isMet e = true := by
  constructor
  · intro nothing pair hpair
    have absent : pair ∉ differing.pairs := by
      rw [List.isEmpty_iff.1 nothing]
      exact List.not_mem_nil
    exact ((Entry.changedFields_eq_ok hdiffering).2 pair hpair).resolve_left absent
  · intro met
    have nothing : e.changedFields p = .ok ∅ := by
      apply Entry.changedFields_of_isMet
      intro pair hpair
      obtain ⟨c, hc⟩ := h pair hpair
      exact ⟨c, hc, met pair hpair c hc⟩
    cases hdiffering.symm.trans nothing
    rfl

/-- What is left of a patch has the value of the patch under a key, or none, where the entry has the
value already. -/
theorem get?_changedFields (key : String) : differing.get? key = p.get? key ∨
    differing.get? key = none ∧ ∃ value, p.get? key = some value ∧
      ∀ c, change? (key, value) = some c → c.isMet e = true := by
  obtain ⟨sub, hmet⟩ := Entry.changedFields_eq_ok hdiffering
  have whole {value : Value} (h : differing.get? key = some value) : p.get? key = some value :=
    OrderedMap.get?_eq_some_iff.2 (sub.subset (OrderedMap.get?_eq_some_iff.1 h))
  cases hleft : differing.get? key with
  | some value => exact .inl (whole hleft).symm
  | none =>
    cases hvalue : p.get? key with
    | none => exact .inl rfl
    | some value =>
      refine .inr ⟨rfl, value, rfl, ?_⟩
      apply (hmet _ (OrderedMap.get?_eq_some_iff.1 hvalue)).resolve_left
      intro mem
      rw [OrderedMap.get?_eq_some_iff.2 mem] at hleft
      cases hleft

/-- The gate says of the part that differs what it says of the whole patch. Dependencies that the
entry has already are not blank. -/
theorem check_changedFields (h : p.Typed)
    (publishable : ∀ value ∈ e.internal.values, isBlankText value = false) :
    differing.check = p.check := by
  rcases get?_changedFields hdiffering EntryField.internal.key with
    hsame | ⟨hnone, value, hvalue, hmet⟩
  · rw [check, check, hsame]
  · obtain ⟨c, hc⟩ := h _ (OrderedMap.get?_eq_some_iff.1 hvalue)
    obtain ⟨m, rfl⟩ : ∃ m, c = .internal m := by
      have hfield := field_of_change? hc
      cases c <;> cases hfield
      exact ⟨_, rfl⟩
    have hsame := OrderedMap.sameContent_iff.1 (hmet _ hc)
    have hgate : m.checkPublishable = .ok () := by
      refine InternalDependencies.checkPublishable_eq_ok.2 fun text htext => ?_
      obtain ⟨⟨path, _⟩, hmem, rfl⟩ := List.mem_map.1 htext
      apply publishable
      exact OrderedMap.mem_values_of_get? ((hsame path).trans (OrderedMap.get?_eq_some_iff.2 hmem))
    simp only [check, hvalue, hnone, (read_of_change?_internal hc).2, hgate]
    rfl

/-- The part of a patch that differs from a publishable entry and the whole patch are refused alike,
or both make an entry that has all that the patch asks for. -/
theorem patched_changedFields (h : p.Typed)
    (publishable : ∀ value ∈ e.internal.values, isBlankText value = false) :
    (∃ failure, e.patched differing e.version = .error failure ∧
      e.patched p e.version = .error failure) ∨
    ∃ e₁ e₂, e.patched differing e.version = .ok e₁ ∧ e.patched p e.version = .ok e₂ ∧
      p.Makes e e₁ ∧ p.Makes e e₂ := by
  obtain ⟨e₁, hfirst⟩ := (typed_of_changedFields hdiffering h).exists_patched_eq (e := e) rfl
  obtain ⟨e₂, hsecond⟩ := h.exists_patched_eq (e := e) rfl
  rw [check_changedFields hdiffering h publishable] at hfirst
  cases hcheck : p.check with
  | error failure =>
    rw [hcheck] at hfirst hsecond
    exact .inl ⟨failure, hfirst, hsecond⟩
  | ok =>
    rw [hcheck] at hfirst hsecond
    exact .inr ⟨e₁, e₂, hfirst, hsecond, makes_of_patched_changedFields hdiffering hfirst,
      makes_of_patched hsecond⟩

end Differing

end EntryPatch

section Stores

variable {σ : Type} [RegistryStore σ]

/-- What comes of updating an entry with a patch and with a part of it: both are refused alike and
leave the store as it was, or both store what the patch makes of the entry, and nothing of the patch
is left to do. -/
inductive SameUpdate (store : σ) (i : Identifier) (e : Entry) (p : EntryPatch) :
    Except Failure Entry × σ → Except Failure Entry × σ → Prop where
  | refused (failure : Failure) : SameUpdate store i e p (.error failure, store) (.error failure, store)
  | made {e₁ e₂ : Entry} {store₁ store₂ : σ} (makes₁ : p.Makes e e₁) (makes₂ : p.Makes e e₂)
      (alike : e₁.Alike e₂) (stored₁ : RegistryStore.entryAt? store₁ i = some e₁)
      (stored₂ : RegistryStore.entryAt? store₂ i = some e₂)
      (settled₁ : e₁.changedFields p = .ok ∅) (settled₂ : e₂.changedFields p = .ok ∅) :
      SameUpdate store i e p (.ok e₁, store₁) (.ok e₂, store₂)

/-- A store in which it is enough to patch what differs. -/
def PatchesDiffering (store : σ) : Prop :=
  ∀ i e (p : EntryPatch), RegistryStore.entryAt? store i = some e → p.Typed →
    ∃ differing, e.changedFields p = .ok differing ∧
      (differing.isEmpty = true ↔
        ∀ pair ∈ p.pairs, ∀ c, EntryPatch.change? pair = some c → c.isMet e = true) ∧
      SameUpdate store i e p ((RegistryStore.updateEntry i differing e.version).run store)
        ((RegistryStore.updateEntry i p e.version).run store)

variable [RefSupply] {m : MemoryStore} {t : TableStore}

theorem MemoryStore.run_updateEntry {i : Identifier} {e : Entry}
    (stored : m.entries.get? i = some e) (p : EntryPatch) (expected : Int) :
    (RegistryStore.updateEntry i p expected).run m =
      match e.patched p expected with
      | .error failure => (.error failure, m)
      | .ok updated => (.ok updated, { m with entries := m.entries.insert i updated }) := by
  change (MemoryStore.updateEntry i p expected).run m = _
  unfold MemoryStore.updateEntry
  simp only [StoreM.run_bind, StoreM.run_get, stored, StoreM.run_lift]
  cases e.patched p expected <;> rfl

/-- In a store in memory with publishable entries it is enough to patch what differs. -/
theorem MemoryStore.patchesDiffering
    (publishable : ∀ i e, RegistryStore.entryAt? m i = some e →
      ∀ value ∈ e.internal.values, isBlankText value = false) : PatchesDiffering m := by
  intro i e p stored typed
  obtain ⟨differing, hdiffering⟩ := typed.exists_changedFields e
  refine ⟨differing, hdiffering, EntryPatch.isEmpty_changedFields_iff hdiffering typed, ?_⟩
  rw [run_updateEntry stored, run_updateEntry stored]
  rcases EntryPatch.patched_changedFields hdiffering typed (publishable i e stored) with
    ⟨failure, hfirst, hsecond⟩ | ⟨e₁, e₂, hfirst, hsecond, makes₁, makes₂⟩
  · rw [hfirst, hsecond]
    exact .refused failure
  · rw [hfirst, hsecond]
    have written (updated : Entry) : (m.entries.insert i updated).get? i = some updated :=
      (OrderedMap.get?_insert ..).trans (if_pos rfl)
    exact .made makes₁ makes₂ (makes₁.alike typed makes₂) (written e₁) (written e₂)
      (makes₁.changedFields_eq typed) (makes₂.changedFields_eq typed)

/-- A table that mirrors such a store does the same, for it holds the same. -/
theorem Mirrors.patchesDiffering (h : Mirrors m t) (inMemory : PatchesDiffering m) :
    PatchesDiffering t := by
  intro i e p stored typed
  obtain ⟨differing, hdiffering, hempty, hupdate⟩ :=
    inMemory i e p ((h.entryAt?_eq i).trans stored) typed
  refine ⟨differing, hdiffering, hempty, ?_⟩
  obtain ⟨result₁, mirrors₁⟩ := h.updateEntry i differing e.version
  obtain ⟨result₂, mirrors₂⟩ := h.updateEntry i p e.version
  generalize (RegistryStore.updateEntry i differing e.version).run m = run₁ at *
  generalize (RegistryStore.updateEntry i p e.version).run m = run₂ at *
  generalize (RegistryStore.updateEntry i differing e.version).run t = run₁' at *
  generalize (RegistryStore.updateEntry i p e.version).run t = run₂' at *
  obtain ⟨_, t₁⟩ := run₁'
  obtain ⟨_, t₂⟩ := run₂'
  cases hupdate with
  | refused failure =>
    cases result₁
    cases result₂
    obtain rfl : t₁ = t := mirrors₁.unique h
    obtain rfl : t₂ = t₁ := mirrors₂.unique h
    exact .refused failure
  | made makes₁ makes₂ alike stored₁ stored₂ settled₁ settled₂ =>
    cases result₁
    cases result₂
    exact .made makes₁ makes₂ alike ((mirrors₁.entryAt?_eq i).symm.trans stored₁)
      ((mirrors₂.entryAt?_eq i).symm.trans stored₂) settled₁ settled₂

end Stores

/-- After any requests, on either store: patching an entry with the part of a patch that differs from
it does what the whole patch does, and nothing is left of a patch that the entry meets. -/
theorem session_patches_differing [RefSupply] (earlier : List StoreRequest) :
    PatchesDiffering (session earlier (RegistryStore.empty : MemoryStore)).2 ∧
      PatchesDiffering (session earlier (RegistryStore.empty : TableStore)).2 := by
  have mirrors := (Mirrors.empty.session earlier).2
  obtain ⟨store, -, gated, -⟩ := MemoryStore.accounts.upholdsGate earlier []
  have inMemory : PatchesDiffering (session earlier (RegistryStore.empty : MemoryStore)).2 := by
    apply MemoryStore.patchesDiffering
    rw [store]
    intro i e stored
    have own := gated.own i e stored
    exact gated.publishable e ((gated.listed e).2 (own.symm ▸ stored))
  exact ⟨inMemory, mirrors.patchesDiffering inMemory⟩

/-- The dependencies of a patch are those of the entry in another order, so a description is all that
is left of it. -/
theorem session_patches_differing_reordered :
    let e : Entry :=
      { owner := "ann", slug := "card", name := "Card", registry := "ui", codeRef := "a",
        demoRef := "b", exportedNames := ["Card"], demoExportName := "Demo", external := ∅,
        demoExternal := ∅, internal := .ofPairs [("./base", "ann/base"), ("./icon", "bob/icon")],
        description := none, version := 1 }
    let p : EntryPatch := .ofPairs [("internal_dependencies",
        .object [("./icon", .string "bob/icon"), ("./base", .string "ann/base")]),
      ("description", .string "A card.")]
    let t := (session [.createEntry e] (RegistryStore.empty : TableStore)).2
    ∃ differing : EntryPatch, e.changedFields p = .ok differing ∧
      differing.keys = ["description"] ∧
      SameUpdate t e.identifier e p ((RegistryStore.updateEntry e.identifier differing 1).run t)
        ((RegistryStore.updateEntry e.identifier p 1).run t) := by
  intro e p t
  obtain ⟨stored, readable, keys⟩ : RegistryStore.entryAt? t e.identifier = some e ∧
      (∀ pair ∈ p.pairs, (EntryPatch.change? pair).isSome = true) ∧
      (e.changedFields p).toOption.map OrderedMap.keys = some ["description"] := by
    decide +kernel
  have typed : p.Typed := fun pair mem => Option.isSome_iff_exists.1 (readable pair mem)
  obtain ⟨differing, hdiffering, -, hupdate⟩ :=
    (session_patches_differing [.createEntry e]).2 e.identifier e p stored typed
  rw [hdiffering] at keys
  exact ⟨differing, hdiffering, Option.some.inj keys, hupdate⟩

end ComponentRegistry
