import Mathlib.Logic.Function.Basic
import Mathlib.Logic.Relation
import ComponentRegistry.Proofs.Store.Mirroring

/-! # Entries over time

What requests make of the entries of a store: one is added when it is publishable and its address is
free, or one is patched. Beside a store it can be counted how often each entry was changed, and the
store does not notice.
-/

namespace ComponentRegistry

/-- The entries of a store, and how often each was changed. -/
structure Ledger where
  /-- The entry at each address. -/
  entries : Identifier → Option Entry
  /-- How many changes were made at each address. -/
  changes : Identifier → Nat

namespace Ledger

/-- What can happen to the entries. -/
inductive Step : Ledger → Ledger → Prop where
  /-- An entry is added. -/
  | create {l : Ledger} {e : Entry} (free : l.entries e.identifier = none)
      (publishable : e.internal.checkPublishable = .ok ()) :
      Step l { l with entries := Function.update l.entries e.identifier (some { e with version := 1 }) }
  /-- An entry is changed. -/
  | change {l : Ledger} {i : Identifier} {current updated : Entry} {p : EntryPatch} {expected : Int}
      (stored : l.entries i = some current) (patched : current.patched p expected = .ok updated) :
      Step l
        { entries := Function.update l.entries i (some updated)
          changes := Function.update l.changes i (l.changes i + 1) }

/-- What can have happened to the entries after some requests. -/
abbrev Develops : Ledger → Ledger → Prop := Relation.ReflTransGen Step

end Ledger

/-- A store beside which the changes are counted. -/
structure Counted (σ : Type) where
  /-- The store. -/
  store : σ
  /-- How many changes were made at each address. -/
  changes : Identifier → Nat

namespace Counted

variable {σ : Type} {α : Type}

/-- An operation on the store, without counting. -/
def within (x : StoreM σ α) : StoreM (Counted σ) α := fun c =>
  ((x.run c.store).1, { c with store := (x.run c.store).2 })

/-- One more change at an address. -/
def counting (c : Counted σ) (i : Identifier) : Counted σ :=
  { c with changes := Function.update c.changes i (c.changes i + 1) }

/-- What goes through the store. Only a change that succeeds is counted. -/
instance [RegistryStore σ] : RegistryStore (Counted σ) where
  empty := ⟨RegistryStore.empty, fun _ => 0⟩
  putSource name text := within (RegistryStore.putSource name text)
  getSource? c := RegistryStore.getSource? c.store
  createEntry e := within (RegistryStore.createEntry e)
  entryAt? c := RegistryStore.entryAt? c.store
  listEntries c := RegistryStore.listEntries c.store
  updateEntry i p expected := do
    let updated ← within (RegistryStore.updateEntry i p expected)
    modify fun c => c.counting i
    pure updated

theorem run_updateEntry [RegistryStore σ] (c : Counted σ) (i : Identifier) (p : EntryPatch)
    (expected : Int) :
    StoreM.run (RegistryStore.updateEntry i p expected) c =
      match (RegistryStore.updateEntry i p expected).run c.store with
      | (.ok updated, store) => (.ok updated, (Counted.mk store c.changes).counting i)
      | (.error e, store) => (.error e, ⟨store, c.changes⟩) := by
  change StoreM.run (within _ >>= _) c = _
  rw [StoreM.run_bind]
  have run : (within (RegistryStore.updateEntry i p expected)).run c =
      (((RegistryStore.updateEntry i p expected).run c.store).1,
        ⟨((RegistryStore.updateEntry i p expected).run c.store).2, c.changes⟩) := rfl
  rw [run]
  rcases (RegistryStore.updateEntry i p expected).run c.store with ⟨result, store⟩
  cases result <;> rfl

/-- The entries of the store, and how often each was changed. -/
def ledger [RegistryStore σ] (c : Counted σ) : Ledger := ⟨RegistryStore.entryAt? c.store, c.changes⟩

end Counted

/-- The entries after an operation: those from before if it fails, and otherwise its result has
been put at an address. -/
def Puts (i : Identifier) (before after : Identifier → Option Entry) (result : Except Failure Entry)
    (allowed : Entry → Prop) : Prop :=
  match result with
  | .ok new => allowed new ∧ after = Function.update before i (some new)
  | .error _ => after = before

/-- What a store does to its entries, as long as a condition holds that its operations keep up. -/
structure RegistryStore.Accounts {σ : Type} [RegistryStore σ] (ok : σ → Prop) : Prop where
  ok_empty : ok empty
  empty : ∀ i, entryAt? (empty : σ) i = none
  listed : ∀ {store}, ok store → ∀ e, e ∈ listEntries store none ↔ ∃ i, entryAt? store i = some e
  putSource : ∀ {store} name text, ok store →
    ok ((putSource name text).run store).2 ∧
      entryAt? ((putSource name text).run store).2 = entryAt? store
  createEntry : ∀ {store} e, ok store →
    ok ((createEntry e).run store).2 ∧
      Puts e.identifier (entryAt? store) (entryAt? ((createEntry e).run store).2)
        ((createEntry e).run store).1 fun new =>
          new = { e with version := 1 } ∧ entryAt? store e.identifier = none ∧
            e.internal.checkPublishable = .ok ()
  updateEntry : ∀ {store} i p expected, ok store →
    ok ((updateEntry i p expected).run store).2 ∧
      Puts i (entryAt? store) (entryAt? ((updateEntry i p expected).run store).2)
        ((updateEntry i p expected).run store).1 fun new =>
          ∃ current, entryAt? store i = some current ∧ current.patched p expected = .ok new

namespace OrderedMap

variable {κ α : Type} [DecidableEq κ] {m : OrderedMap κ α} {key : κ}

theorem get?_insert_eq (m : OrderedMap κ α) (key : κ) (value : α) :
    (m.insert key value).get? = Function.update m.get? key (some value) := by
  funext k
  rw [get?_insert, Function.update_apply]
  simp only [eq_comm]

theorem get?_eq_none (absent : ¬m.contains key = true) : m.get? key = none := by
  rw [contains, List.contains_iff_mem] at absent
  exact get?_eq_none_iff.2 absent

end OrderedMap

section Stores

variable [RefSupply]

theorem MemoryStore.accounts : RegistryStore.Accounts fun _ : MemoryStore => True where
  ok_empty := trivial
  empty _ := rfl
  listed := by
    intro m _ e
    have all : RegistryStore.listEntries m none = m.entries.values := List.filter_eq_self.2 (by simp)
    rw [all, OrderedMap.values, List.mem_map]
    constructor
    · rintro ⟨⟨i, e⟩, mem, rfl⟩
      exact ⟨i, OrderedMap.get?_eq_some_iff.2 mem⟩
    · rintro ⟨i, stored⟩
      exact ⟨(i, e), OrderedMap.get?_eq_some_iff.1 stored, rfl⟩
  putSource _ _ _ := ⟨trivial, rfl⟩
  createEntry := by
    intro m e _
    refine ⟨trivial, ?_⟩
    change Puts _ _ (RegistryStore.entryAt? ((MemoryStore.createEntry e).run m).2)
      ((MemoryStore.createEntry e).run m).1 _
    unfold MemoryStore.createEntry
    rw [StoreM.run_bind, StoreM.run_lift]
    cases gate : e.internal.checkPublishable with
    | error error => rfl
    | ok =>
      simp only [Except.mapError, StoreM.run_bind, StoreM.run_get]
      by_cases taken : m.entries.contains e.identifier
      · rw [if_pos taken]
        rfl
      · rw [if_neg taken]
        exact ⟨⟨rfl, OrderedMap.get?_eq_none taken, trivial⟩, OrderedMap.get?_insert_eq ..⟩
  updateEntry := by
    intro m i p expected _
    refine ⟨trivial, ?_⟩
    change Puts _ _ (RegistryStore.entryAt? ((MemoryStore.updateEntry i p expected).run m).2)
      ((MemoryStore.updateEntry i p expected).run m).1 _
    unfold MemoryStore.updateEntry
    rw [StoreM.run_bind, StoreM.run_get]
    cases stored : m.entries.get? i with
    | none =>
      simp only [stored]
      rfl
    | some current =>
      simp only [stored, StoreM.run_bind, StoreM.run_lift]
      cases patched : current.patched p expected with
      | error error => rfl
      | ok updated => exact ⟨⟨current, stored, patched⟩, OrderedMap.get?_insert_eq ..⟩

/-- A table that mirrors a store in memory does to its entries what the latter does. -/
theorem TableStore.accounts : RegistryStore.Accounts fun t : TableStore => ∃ m, Mirrors m t where
  ok_empty := ⟨_, .empty⟩
  empty _ := rfl
  listed := by
    rintro t ⟨m, h⟩ e
    simp only [← h.entryAt?_eq]
    exact (h.listEntries_perm none).mem_iff.symm.trans (MemoryStore.accounts.listed trivial e)
  putSource := by
    rintro t name text ⟨m, h⟩
    obtain ⟨-, after⟩ := h.putSource name text
    refine ⟨⟨_, after⟩, ?_⟩
    funext i
    rw [← after.entryAt?_eq, ← h.entryAt?_eq, (MemoryStore.accounts.putSource name text trivial).2]
  createEntry := by
    rintro t e ⟨m, h⟩
    obtain ⟨result, after⟩ := h.createEntry e
    refine ⟨⟨_, after⟩, ?_⟩
    rw [← funext h.entryAt?_eq, ← funext after.entryAt?_eq, ← result]
    exact (MemoryStore.accounts.createEntry e trivial).2
  updateEntry := by
    rintro t i p expected ⟨m, h⟩
    obtain ⟨result, after⟩ := h.updateEntry i p expected
    refine ⟨⟨_, after⟩, ?_⟩
    rw [← funext h.entryAt?_eq, ← funext after.entryAt?_eq, ← result]
    exact (MemoryStore.accounts.updateEntry i p expected trivial).2

end Stores

/-- An operation beside which changes are counted: the store does not notice, and what happens to the
entries is in the ledger. -/
structure Tracks {σ : Type} [RegistryStore σ] (ok : σ → Prop) (c : Counted σ)
    (x : StoreM (Counted σ) α) (y : StoreM σ α) : Prop where
  result : (x.run c).1 = (y.run c.store).1
  store : (x.run c).2.store = (y.run c.store).2
  ok_after : ok (x.run c).2.store
  develops : c.ledger.Develops (x.run c).2.ledger

section Operations

variable {σ : Type} [RegistryStore σ] {ok : σ → Prop} {c : Counted σ} {α β : Type}

namespace Tracks

theorem pure (h : ok c.store) (a : α) : Tracks ok c (Pure.pure a) (Pure.pure a) :=
  ⟨rfl, rfl, h, .refl⟩

theorem refuse (h : ok c.store) (e : RegistryError) :
    Tracks ok c (StoreM.refuse e : StoreM _ α) (StoreM.refuse e) :=
  ⟨rfl, rfl, h, .refl⟩

theorem lift (h : ok c.store) (r : Except Failure α) :
    Tracks ok c (StoreM.lift r) (StoreM.lift r) := by
  cases r <;> exact ⟨rfl, rfl, h, .refl⟩

theorem get_bind {f : Counted σ → StoreM (Counted σ) α} {g : σ → StoreM σ α}
    (h : Tracks ok c (f c) (g c.store)) : Tracks ok c (get >>= f) (get >>= g) := by
  constructor <;> simp only [StoreM.run_bind, StoreM.run_get]
  · exact h.result
  · exact h.store
  · exact h.ok_after
  · exact h.develops

theorem bind {x : StoreM (Counted σ) α} {y : StoreM σ α} {f : α → StoreM (Counted σ) β}
    {g : α → StoreM σ β} (h : Tracks ok c x y)
    (next : ∀ a c', ok c'.store → Tracks ok c' (f a) (g a)) : Tracks ok c (x >>= f) (y >>= g) := by
  obtain ⟨result, store, after, develops⟩ := h
  rcases hx : x.run c with ⟨rx, c'⟩
  rcases hy : y.run c.store with ⟨ry, s'⟩
  rw [hx, hy] at result store
  rw [hx] at after develops
  simp only at result store after develops
  subst result
  subst store
  cases rx with
  | error e => constructor <;> simp only [StoreM.run_bind, hx, hy] <;> first | rfl | assumption
  | ok a =>
    obtain ⟨result', store', after', develops'⟩ := next a c' after
    constructor <;> simp only [StoreM.run_bind, hx, hy]
    · exact result'
    · exact store'
    · exact after'
    · exact develops.trans develops'

variable (accounts : RegistryStore.Accounts ok) (h : ok c.store)
include accounts h

theorem putSource (name text : String) :
    Tracks ok c (RegistryStore.putSource name text) (RegistryStore.putSource name text) := by
  obtain ⟨after, same⟩ := accounts.putSource name text h
  refine ⟨rfl, rfl, after, ?_⟩
  have unchanged : Counted.ledger ((RegistryStore.putSource name text).run c).2 = c.ledger :=
    congrArg (Ledger.mk · c.changes) same
  rw [unchanged]

theorem createEntry (e : Entry) :
    Tracks ok c (RegistryStore.createEntry e) (RegistryStore.createEntry e) := by
  obtain ⟨after, puts⟩ := accounts.createEntry e h
  refine ⟨rfl, rfl, after, ?_⟩
  change c.ledger.Develops ⟨RegistryStore.entryAt? ((RegistryStore.createEntry e).run c.store).2, _⟩
  unfold Puts at puts
  split at puts
  · obtain ⟨⟨rfl, free, publishable⟩, written⟩ := puts
    rw [written]
    exact .single (.create (l := c.ledger) free publishable)
  · rw [puts]
    exact .refl

/-- A change is counted exactly when it succeeds. -/
theorem updateEntry (i : Identifier) (p : EntryPatch) (expected : Int) :
    Tracks ok c (RegistryStore.updateEntry i p expected)
      (RegistryStore.updateEntry i p expected) := by
  obtain ⟨after, puts⟩ := accounts.updateEntry i p expected h
  have run := Counted.run_updateEntry c i p expected
  rcases hx : (RegistryStore.updateEntry i p expected).run c.store with ⟨result, store⟩
  rw [hx] at run after puts
  cases result with
  | error e =>
    have same : RegistryStore.entryAt? store = RegistryStore.entryAt? c.store := puts
    refine ⟨by rw [run, hx], by rw [run, hx], by rwa [run], ?_⟩
    rw [run]
    change c.ledger.Develops ⟨RegistryStore.entryAt? store, c.changes⟩
    rw [same]
    exact .refl
  | ok updated =>
    obtain ⟨⟨current, stored, patched⟩, written⟩ := puts
    refine ⟨by rw [run, hx], by rw [run, hx]; rfl, by rwa [run], ?_⟩
    rw [run]
    change c.ledger.Develops ⟨RegistryStore.entryAt? store, _⟩
    rw [written]
    exact .single (.change (l := c.ledger) stored patched)

theorem keepSource (ref name text : String) :
    Tracks ok c (RegistryStore.keepSource ref name text)
      (RegistryStore.keepSource ref name text) := by
  apply get_bind
  change Tracks ok c (ite (RegistryStore.sourceText? c.store ref = some text) _ _) _
  split
  · exact pure h ref
  · exact putSource accounts h name text

theorem publish (i : Identifier) (analysis : SubmissionAnalysis) (labels : EntryLabels) :
    Tracks ok c (RegistryStore.publish i analysis labels)
      (RegistryStore.publish i analysis labels) := by
  refine (lift h _).bind fun _ c h => get_bind ?_
  change Tracks ok c (ite ((RegistryStore.entryAt? c.store i).isSome = true) _ _) _
  split
  · exact refuse h _
  · refine (putSource accounts h _ _).bind fun codeRef c h => ?_
    refine (putSource accounts h _ _).bind fun demoRef c h => ?_
    exact (lift h _).bind fun entry c h => createEntry accounts h entry

theorem revise (settings : AnalysisSettings) (i : Identifier) (component demo : String)
    (slugs : InternalDependencies) (known : OrderedMap String String) :
    Tracks ok c (RegistryStore.revise settings i component demo slugs known)
      (RegistryStore.revise settings i component demo slugs known) := by
  apply get_bind
  have same : RegistryStore.entryAt? c i = RegistryStore.entryAt? c.store i := rfl
  rw [same]
  cases RegistryStore.entryAt? c.store i with
  | none => exact refuse h _
  | some current =>
    refine (lift h _).bind fun analysis c h => ?_
    refine (lift h _).bind fun _ c h => ?_
    refine (keepSource accounts h _ _ _).bind fun codeRef c h => ?_
    refine (keepSource accounts h _ _ _).bind fun demoRef c h => ?_
    refine (lift h _).bind fun changed c h => ?_
    split
    · exact pure h current
    · exact updateEntry accounts h _ _ _

theorem answer (request : StoreRequest) : Tracks ok c request.answer request.answer := by
  cases request with
  | putSource name text => exact (putSource accounts h name text).bind fun r _ h => pure h (StoreAnswer.ref r)
  | getSource ref => exact get_bind (pure h _)
  | sourceText ref => exact get_bind (pure h _)
  | createEntry entry => exact (createEntry accounts h entry).bind fun e _ h => pure h (StoreAnswer.entry e)
  | entryAt i => exact get_bind (pure h _)
  | listEntries owner => exact get_bind (pure h _)
  | updateEntry i p expected =>
    exact (updateEntry accounts h i p expected).bind fun e _ h => pure h (StoreAnswer.entry e)
  | publish i analysis labels =>
    exact (publish accounts h i analysis labels).bind fun e _ h => pure h (StoreAnswer.entry e)
  | revise settings i component demo slugs known =>
    exact (revise accounts h settings i component demo slugs known).bind fun e _ h =>
      pure h (StoreAnswer.entry e)

/-- A session with the counts beside it is the session. -/
theorem session (requests : List StoreRequest) :
    (session requests c).1 = (session requests c.store).1 ∧
      (session requests c).2.store = (session requests c.store).2 ∧
      ok (session requests c).2.store ∧ c.ledger.Develops (session requests c).2.ledger := by
  induction requests generalizing c with
  | nil => exact ⟨rfl, rfl, h, .refl⟩
  | cons request rest ih =>
    obtain ⟨result, store, after, develops⟩ := answer accounts h request
    obtain ⟨results, last, afterwards, develops'⟩ := ih after
    rw [store] at results last
    exact ⟨congrArg₂ List.cons result results, last, afterwards, develops.trans develops'⟩

end Tracks

end Operations

end ComponentRegistry
