import ComponentRegistry.Entry
import ComponentRegistry.Submission

/-! # Stores

Where entries and source texts are kept. Source texts are only ever added. Entries are changed by
compare-and-set: a change names the version that it was made for, and fails when the entry has moved
on. Every operation says what it does to the store also when it fails.
-/

namespace ComponentRegistry

/-- A stored source text. -/
structure SourceUnit where
  /-- By what it is found. -/
  ref : String
  /-- What it is called. -/
  name : String
  /-- The text. -/
  text : String
  deriving Repr, DecidableEq

/-- By what source texts are found, from the first one that is stored on. No two are found by the
same. -/
class RefSupply where
  /-- What a text is found by before which a number of others have been stored. -/
  ref : Nat → String
  /-- References are never used again. -/
  ref_inj : ∀ m n, ref m = ref n → m = n

/-- By default source texts are numbered. -/
instance : RefSupply where
  ref count := "ref-" ++ toString (count + 1)
  ref_inj m n h := by
    rw [String.append_right_inj, Nat.toString_eq_ofList_toDigits,
      Nat.toString_eq_ofList_toDigits, String.ofList_inj] at h
    have numbers := congrArg (Nat.ofDigitChars 10 · 0) h
    simpa only [Nat.ofDigitChars_ten_toDigits, Nat.add_right_cancel_iff] using numbers

/-- An operation on a store, which leaves a store behind whether it fails or not. -/
abbrev StoreM (σ : Type) := ExceptT Failure (StateM σ)

/-- Run an operation. -/
def StoreM.run {σ α : Type} (x : StoreM σ α) (store : σ) : Except Failure α × σ := x store

/-- Refuse an operation. -/
def StoreM.refuse {σ α : Type} (error : RegistryError) : StoreM σ α := throw (.refused error)

/-- An operation that does not look at the store. -/
def StoreM.lift {σ α : Type} (x : Except Failure α) : StoreM σ α :=
  match x with
  | .ok a => pure a
  | .error e => throw e

/-- What a store can do. -/
class RegistryStore (σ : Type) where
  /-- The store with nothing in it. -/
  empty : σ
  /-- Add a source text and tell by what it is found. -/
  putSource (name text : String) : StoreM σ String
  /-- Find a source text. -/
  getSource? (store : σ) (ref : String) : Option SourceUnit
  /-- Add an entry, at version one. -/
  createEntry (entry : Entry) : StoreM σ Entry
  /-- Find an entry. -/
  entryAt? (store : σ) (identifier : Identifier) : Option Entry
  /-- All entries, or all of one owner. -/
  listEntries (store : σ) (owner : Option String) : List Entry
  /-- Change an entry that is expected to have a certain version. -/
  updateEntry (identifier : Identifier) (patch : EntryPatch) (expected : Int) : StoreM σ Entry

namespace RegistryStore

/-- The text of a stored source. -/
def sourceText? {σ : Type} [RegistryStore σ] (store : σ) (ref : String) : Option String :=
  (getSource? store ref).map SourceUnit.text

end RegistryStore

end ComponentRegistry
