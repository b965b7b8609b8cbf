import ComponentRegistry.Proofs.Resolution.Closure
import ComponentRegistry.Proofs.Store.Counting
import ComponentRegistry.Proofs.Submission

/-! # The gate of a registry

An entry gets into a store, or is changed, only when all that it imports has been assigned an entry.
So this holds of every entry of every store, whatever was requested, and a search never comes upon
a dependency that is blank. Entries keep their addresses, and their versions count their changes.
-/

namespace ComponentRegistry

section Checking

variable {m : InternalDependencies} {p : EntryPatch} {changes : List EntryChange} {e e' : Entry}
  {expected : Int}

theorem InternalDependencies.checkPublishable_eq_ok :
    m.checkPublishable = .ok () ↔ ∀ value ∈ m.values, isBlankText value = false := by
  have none : m.unresolved = [] ↔ ∀ value ∈ m.values, isBlankText value = false := by
    simpa [unresolved, OrderedMap.values] using forall_comm
  rw [← none, checkPublishable]
  split <;> simp_all

namespace EntryPatch

theorem exists_pair_of_mem {pairs : List (String × Value)} (h : pairs.mapM change? = some changes)
    {c : EntryChange} (hc : c ∈ changes) : ∃ pair ∈ pairs, change? pair = some c := by
  induction pairs generalizing changes with
  | nil =>
    cases h
    cases hc
  | cons pair rest ih =>
    obtain ⟨first, others, hfirst, hothers, rfl⟩ := mapM_change?_cons h
    rcases List.mem_cons.1 hc with rfl | hc
    · exact ⟨pair, List.mem_cons_self, hfirst⟩
    · obtain ⟨pair, mem, hpair⟩ := ih hothers hc
      exact ⟨pair, List.mem_cons_of_mem _ mem, hpair⟩

/-- A change of the internal dependencies reads a map, which the gate looks at. -/
theorem read_of_change?_internal {value : Value}
    (h : change? (EntryField.internal.key, value) = some (.internal m)) :
    value.textMap? = some m ∧ checkInternal value = m.checkPublishable.mapError .refused := by
  obtain ⟨texts, read, rfl⟩ : ∃ texts, value.textMap? = some texts ∧ texts = m := by
    simpa [change?, EntryField.ofKey?, EntryField.all, EntryField.key, EntryChange.ofValue?]
      using h
  refine ⟨read, ?_⟩
  cases value with
  | object fields =>
    obtain ⟨pairs, hpairs, rfl⟩ := Option.map_eq_some_iff.1 read
    simp only [checkInternal, hpairs]
  | _ => cases read

/-- The texts that are checked before a patch is applied are those that it calls for. -/
theorem publishable_of_check (checked : p.check = .ok ()) (h : p.changes? = some changes)
    (mem : .internal m ∈ changes) : m.checkPublishable = .ok () := by
  rw [changes?_eq_mapM] at h
  obtain ⟨⟨key, value⟩, hpair, change⟩ := exists_pair_of_mem h mem
  obtain rfl : EntryField.internal.key = key := key_of_change? change
  rw [check, OrderedMap.get?_eq_some_iff.2 hpair] at checked
  exact mapError_eq_ok.1 ((read_of_change?_internal change).2.symm.trans checked)

end EntryPatch

/-- The internal dependencies of a changed entry are those from before, or those of a change. -/
theorem EntryChange.internal_foldl_apply (e : Entry) (changes : List EntryChange) :
    (changes.foldl apply e).internal = e.internal ∨
      .internal (changes.foldl apply e).internal ∈ changes := by
  induction changes generalizing e with
  | nil => exact .inl rfl
  | cons c rest ih =>
    rw [List.foldl_cons]
    rcases ih (apply e c) with same | mem
    · rw [same]
      cases c with
      | internal m => exact .inr List.mem_cons_self
      | _ => exact .inl rfl
    · exact .inr (List.mem_cons_of_mem _ mem)

theorem Entry.publishable_of_patched (h : e.patched p expected = .ok e')
    (publishable : ∀ value ∈ e.internal.values, isBlankText value = false) :
    ∀ value ∈ e'.internal.values, isBlankText value = false := by
  obtain ⟨-, -, checked, changes, hchanges, rfl⟩ := patched_eq_ok h
  rcases EntryChange.internal_foldl_apply e changes with same | mem
  · simp only [same]
    exact publishable
  · exact InternalDependencies.checkPublishable_eq_ok.1
      (EntryPatch.publishable_of_check checked hchanges mem)

end Checking

namespace Ledger

variable {l l' : Ledger}

/-- What an address holds: an entry that is publishable and has this address, with a version that
counts its changes, or nothing that was ever changed. -/
def KeptAt (i : Identifier) : Option Entry → Nat → Prop
  | some e, changes => (∀ value ∈ e.internal.values, isBlankText value = false) ∧
      e.identifier = i ∧ e.version = 1 + changes
  | none, changes => changes = 0

/-- What every address holds. -/
def Kept (l : Ledger) : Prop := ∀ i, KeptAt i (l.entries i) (l.changes i)

/-- What a step does at an address: nothing, or it adds an entry, or it changes the entry there. -/
theorem Step.at (s : Step l l') (i : Identifier) :
    (l'.entries i = l.entries i ∧ l'.changes i = l.changes i) ∨
      (l.entries i = none ∧ l'.changes i = l.changes i ∧ ∃ e : Entry, e.identifier = i ∧
        e.internal.checkPublishable = .ok () ∧ l'.entries i = some { e with version := 1 }) ∨
      (l'.changes i = l.changes i + 1 ∧ ∃ current updated p expected, l.entries i = some current ∧
        current.patched p expected = .ok updated ∧ l'.entries i = some updated) := by
  cases s with
  | @create e free publishable =>
    by_cases here : i = e.identifier
    · subst here
      exact .inr (.inl ⟨free, rfl, e, rfl, publishable, Function.update_self ..⟩)
    · exact .inl ⟨Function.update_of_ne here .., rfl⟩
  | @change there current updated p expected stored patched =>
    by_cases here : i = there
    · subst here
      exact .inr (.inr ⟨Function.update_self .., current, updated, p, expected, stored, patched,
        Function.update_self ..⟩)
    · exact .inl ⟨Function.update_of_ne here .., Function.update_of_ne here ..⟩

theorem Kept.step (h : l.Kept) (s : Step l l') : l'.Kept := by
  intro i
  have before := h i
  obtain ⟨same, count⟩ | ⟨free, count, e, own, publishable, after⟩ |
    ⟨count, current, updated, p, expected, stored, patched, after⟩ := s.at i
  · rw [same, count]
    exact before
  · rw [free] at before
    rw [after, count, show l.changes i = 0 from before]
    exact ⟨InternalDependencies.checkPublishable_eq_ok.1 publishable, own, rfl⟩
  · rw [stored] at before
    obtain ⟨publishable, own, version⟩ := before
    rw [after, count]
    refine ⟨Entry.publishable_of_patched patched publishable, ?_, ?_⟩
    · rw [Entry.identifier_of_patched patched, own]
    · rw [Entry.version_of_patched patched, version, Nat.add_assoc]

theorem Kept.develops (h : l.Kept) (s : l.Develops l') : l'.Kept := by
  induction s with
  | refl => exact h
  | tail _ last ih => exact ih.step last

/-- Whatever has an entry keeps it. -/
theorem Develops.persists (s : l.Develops l') {i : Identifier} (h : (l.entries i).isSome) :
    (l'.entries i).isSome := by
  induction s with
  | refl => exact h
  | tail _ last ih =>
    obtain ⟨same, -⟩ | ⟨-, -, e, -, -, after⟩ | ⟨-, _, updated, _, _, -, -, after⟩ := last.at i
    · rwa [same]
    · rw [after]
      rfl
    · rw [after]
      rfl

end Ledger

namespace Search

variable {search : Search} {path reference : String}

theorem malformed_of_parse {written : String} {e : RegistryError}
    (h : Identifier.parse written = .error e) : e = .malformedIdentifier written := by
  unfold Identifier.parse at h
  split at h <;> cases h
  rfl

theorem fetchText_ne_blankDependency {catalog : Catalog} {written : String} {e : Entry} :
    catalog.fetchText written e ≠ .error (.blankDependency path reference) := by
  unfold Catalog.fetchText
  split
  · next outage _ => cases outage <;> simp [Catalog.interruption]
  · split <;> simp

theorem fetchEntry_ne_blankDependency {catalog : Catalog} {written : String} {i : Identifier} :
    catalog.fetchEntry written i ≠ .error (.blankDependency path reference) := by
  unfold Catalog.fetchEntry
  split
  · next outage _ => cases outage <;> simp [Catalog.interruption]
  · split <;> simp

/-- Reading an entry does not look at what it depends on. -/
theorem read_ne_blankDependency {written : String} :
    search.read written ≠ .error (.blankDependency path reference) := by
  intro h
  unfold read at h
  split at h
  · rcases bind_eq_error.1 h with h | ⟨text, -, h⟩
    · exact fetchText_ne_blankDependency h
    · cases h
  · rcases bind_eq_error.1 h with h | ⟨i, -, h⟩
    · cases malformed_of_parse h
    rcases bind_eq_error.1 h with h | ⟨e, -, h⟩
    · exact fetchEntry_ne_blankDependency h
    rcases bind_eq_error.1 h with h | ⟨text, -, h⟩
    · exact fetchText_ne_blankDependency h
    · cases h

theorem dependencies_ne_blankDependency {f : Found}
    (publishable : ∀ value ∈ f.entry.internal.values, isBlankText value = false) :
    f.dependencies ≠ .error (.blankDependency path reference) := by
  intro h
  obtain ⟨⟨key, value⟩, mem, h⟩ := exists_of_mapM_eq_error h
  simp only [publishable value (List.mem_map_of_mem mem), Bool.false_eq_true, if_false] at h
  cases malformed_of_parse (map_eq_error h)

variable (publishable : ∀ e ∈ search.entries, ∀ value ∈ e.internal.values, isBlankText value = false)
include publishable

theorem rounds_ne_blankDependency {round : Nat} {seen references : List String} :
    search.rounds round seen references ≠ .error (.blankDependency path reference) := by
  intro h
  fun_induction rounds search round seen references with
  | case1 round seen references e hround =>
    cases h
    obtain ⟨r, -, hread⟩ := readRound_eq_error hround
    exact read_ne_blankDependency hread
  | case2 round seen references found hround e hnext =>
    cases h
    rcases bind_eq_error.1 hnext with hnext | ⟨lists, -, hnext⟩
    · obtain ⟨f, hf, herror⟩ := exists_of_mapM_eq_error hnext
      exact dependencies_ne_blankDependency
        (publishable f.entry (entry_mem_of_readRound hround f hf)) herror
    · cases hnext
  | case3 => cases h
  | case4 round seen references found hround next more hnext ih => exact ih (map_eq_error h)

/-- A search that can come upon no blank dependency does not report one. -/
theorem resolve_ne_blankDependency {seeds : List String} :
    search.resolve seeds ≠ .error (.blankDependency path reference) := by
  intro h
  rcases bind_eq_error.1 (map_eq_error h) with h | ⟨references, -, h⟩
  · obtain ⟨seed, -, h⟩ := exists_of_mapM_eq_error (map_eq_error h)
    cases malformed_of_parse (map_eq_error h)
  · exact rounds_ne_blankDependency publishable h

end Search

section Sessions

variable {σ : Type} [RegistryStore σ]

/-- The entries of the catalog of a store are entries of the store, each found under its own
address. -/
theorem RegistryStore.mem_listEntries_of_mem_pairs {store : σ} {i : Identifier} {e : Entry}
    (h : (i, e) ∈ (RegistryStore.catalog store).entries.pairs) :
    e ∈ listEntries store none ∧ e.identifier = i := by
  rcases OrderedMap.mem_pairs_insertAll h with h | h
  · cases h
  · obtain ⟨e, mem, same⟩ := List.mem_map.1 h
    cases same
    exact ⟨mem, rfl⟩

theorem RegistryStore.mem_listEntries_of_catalog {store : σ} {e : Entry}
    (h : e ∈ (RegistryStore.catalog store).entries.values) : e ∈ listEntries store none := by
  obtain ⟨⟨i, e⟩, mem, rfl⟩ := List.mem_map.1 h
  exact (mem_listEntries_of_mem_pairs mem).1

/-- What holds of a store whatever was requested, with the changes that were counted beside it. -/
structure Counted.Gated (c : Counted σ) : Prop where
  /-- No entry has a blank dependency. -/
  publishable : ∀ e ∈ RegistryStore.listEntries c.store none, ∀ value ∈ e.internal.values,
    isBlankText value = false
  /-- Every entry is found under its own address. -/
  listed : ∀ e, e ∈ RegistryStore.listEntries c.store none ↔
    RegistryStore.entryAt? c.store e.identifier = some e
  own : ∀ i e, RegistryStore.entryAt? c.store i = some e → e.identifier = i
  /-- Versions start at one and count the changes. -/
  version : ∀ i e, RegistryStore.entryAt? c.store i = some e → e.version = 1 + c.changes i
  /-- Nothing was changed where there is no entry. -/
  fresh : ∀ i, RegistryStore.entryAt? c.store i = none → c.changes i = 0
  /-- Searches through the store do not report a blank dependency. -/
  resolves : ∀ search : Search,
    search.catalog.entries = (RegistryStore.catalog c.store).entries →
    (∀ e ∈ search.known.values, e ∈ RegistryStore.listEntries c.store none) →
    ∀ seeds path reference, search.resolve seeds ≠ .error (.blankDependency path reference)

theorem Ledger.Kept.gated {ok : σ → Prop} (accounts : RegistryStore.Accounts ok) {c : Counted σ}
    (holds : ok c.store) (kept : c.ledger.Kept) : c.Gated := by
  have at_ (i : Identifier) (e : Entry) (h : RegistryStore.entryAt? c.store i = some e) :
      (∀ value ∈ e.internal.values, isBlankText value = false) ∧ e.identifier = i ∧
        e.version = 1 + c.changes i := by
    have here := kept i
    rwa [show c.ledger.entries i = some e from h] at here
  have publishable : ∀ e ∈ RegistryStore.listEntries c.store none, ∀ value ∈ e.internal.values,
      isBlankText value = false := by
    intro e he
    obtain ⟨i, stored⟩ := (accounts.listed holds e).1 he
    exact (at_ i e stored).1
  refine ⟨publishable, fun e => ?_, fun i e h => (at_ i e h).2.1, fun i e h => (at_ i e h).2.2,
    fun i h => ?_, fun search same known seeds path reference => ?_⟩
  · rw [accounts.listed holds]
    constructor
    · rintro ⟨i, stored⟩
      rwa [(at_ i e stored).2.1]
    · exact fun stored => ⟨_, stored⟩
  · have here := kept i
    rwa [show c.ledger.entries i = none from h] at here
  · refine Search.resolve_ne_blankDependency fun e he => publishable e ?_
    rcases List.mem_append.1 he with he | he
    · exact known e he
    · rw [same] at he
      exact RegistryStore.mem_listEntries_of_catalog he

variable (σ) in
/-- Some requests to a store that starts with nothing in it, and some more. Counting changes makes
no difference to the answers and to the store; what a store is to uphold holds of it; and every
entry of the earlier store is in the later one, under the same address. -/
def UpholdsGate (earlier later : List StoreRequest) : Prop :=
  let c := (session earlier (RegistryStore.empty : Counted σ)).2
  let c' := (session later c).2
  (session earlier (RegistryStore.empty : σ)).2 = c.store ∧
    session later c.store = ((session later c).1, c'.store) ∧ c'.Gated ∧
    ∀ i e, RegistryStore.entryAt? c.store i = some e →
      ∃ e', RegistryStore.entryAt? c'.store i = some e' ∧ e'.identifier = e.identifier

theorem RegistryStore.Accounts.upholdsGate {ok : σ → Prop} (accounts : RegistryStore.Accounts ok)
    (earlier later : List StoreRequest) : UpholdsGate σ earlier later := by
  unfold UpholdsGate
  intro c c'
  obtain ⟨-, store, holds, develops⟩ :=
    Tracks.session accounts (c := RegistryStore.empty) accounts.ok_empty earlier
  obtain ⟨answers, store', holds', develops'⟩ := Tracks.session accounts holds later
  have start : (RegistryStore.empty : Counted σ).ledger.Kept := by
    intro i
    rw [show (RegistryStore.empty : Counted σ).ledger.entries i = none from accounts.empty i]
    rfl
  have gated := (start.develops develops).gated accounts holds
  have gated' := ((start.develops develops).develops develops').gated accounts holds'
  refine ⟨store.symm, Prod.ext answers.symm store'.symm, gated', fun i e stored => ?_⟩
  have present : (c'.ledger.entries i).isSome :=
    develops'.persists (Option.isSome_iff_exists.2 ⟨e, stored⟩)
  obtain ⟨e', stored'⟩ := Option.isSome_iff_exists.1 present
  exact ⟨e', stored', (gated'.own i e' stored').trans (gated.own i e stored).symm⟩

/-- Whatever is requested of a store in memory or of a store in tables that start with nothing in
them, whether it succeeds or fails: every entry is publishable and stands under its own address,
which never changes, its version is one more than the number of changes made to it, and no search
through the store reports a blank dependency. -/
theorem session_upholds_gate [RefSupply] (earlier later : List StoreRequest) :
    UpholdsGate MemoryStore earlier later ∧ UpholdsGate TableStore earlier later :=
  ⟨MemoryStore.accounts.upholdsGate earlier later, TableStore.accounts.upholdsGate earlier later⟩

end Sessions

end ComponentRegistry
