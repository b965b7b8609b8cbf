import ComponentRegistry.Store

/-! # Stores in memory

Entries and source texts as they are, in the order in which they came.
-/

namespace ComponentRegistry

/-- A store in memory. -/
structure MemoryStore where
  /-- The source texts by what they are found by. -/
  sources : OrderedMap String SourceUnit
  /-- The entries by their addresses. -/
  entries : OrderedMap Identifier Entry
  deriving Repr, DecidableEq

namespace MemoryStore

variable [RefSupply]

/-- Add a source text. -/
def putSource (name text : String) : StoreM MemoryStore String := do
  let store ← get
  let ref := RefSupply.ref store.sources.size
  set { store with sources := store.sources.insert ref ⟨ref, name, text⟩ }
  pure ref

/-- Add an entry. It has to be publishable, and its address must be free. -/
def createEntry (entry : Entry) : StoreM MemoryStore Entry := do
  StoreM.lift (entry.internal.checkPublishable.mapError .refused)
  let store ← get
  if store.entries.contains entry.identifier then
    StoreM.refuse (.duplicate entry.identifier.text)
  else
    let stored := { entry with version := 1 }
    set { store with entries := store.entries.insert entry.identifier stored }
    pure stored

/-- All entries, or all of one owner, in the order in which they were created. -/
def listEntries (store : MemoryStore) (owner : Option String) : List Entry :=
  store.entries.values.filter fun e => owner.all (· == e.owner)

/-- Change an entry: the whole entry is replaced. -/
def updateEntry (identifier : Identifier) (patch : EntryPatch) (expected : Int) :
    StoreM MemoryStore Entry := do
  let store ← get
  match store.entries.get? identifier with
  | none => StoreM.refuse (.missingEntry identifier.text)
  | some current =>
    let updated ← StoreM.lift (current.patched patch expected)
    set { store with entries := store.entries.insert identifier updated }
    pure updated

instance : RegistryStore MemoryStore where
  empty := ⟨∅, ∅⟩
  putSource := putSource
  getSource? store ref := store.sources.get? ref
  createEntry := createEntry
  entryAt? store identifier := store.entries.get? identifier
  listEntries := listEntries
  updateEntry := updateEntry

end MemoryStore

end ComponentRegistry
