import ComponentRegistry.Store

/-! # Stores in tables

Entries as rows of columns, where lists and maps are kept as documents. A change is a statement that
writes the named columns of the rows that still have the expected version and counts them. What it
writes was computed from an earlier reading of the row.
-/

namespace ComponentRegistry

/-- A row of the table of entries. -/
structure Row where
  owner : String
  slug : String
  name : String
  registry : String
  codeRef : String
  demoRef : String
  /-- A document with a list. -/
  exportedNames : Value
  demoExportName : String
  /-- A document with a map. -/
  external : Value
  /-- A document with a map. -/
  demoExternal : Value
  /-- A document with a map. -/
  internal : Value
  description : Option String
  version : Nat
  deriving Repr

namespace Row

/-- The columns of an entry. -/
def ofEntry (e : Entry) : Row where
  owner := e.owner
  slug := e.slug
  name := e.name
  registry := e.registry
  codeRef := e.codeRef
  demoRef := e.demoRef
  exportedNames := .strings e.exportedNames
  demoExportName := e.demoExportName
  external := .ofTextMap e.external
  demoExternal := .ofTextMap e.demoExternal
  internal := .ofTextMap e.internal
  description := e.description
  version := e.version

/-- The entry that the columns hold. -/
def entry (r : Row) : Entry where
  owner := r.owner
  slug := r.slug
  name := r.name
  registry := r.registry
  codeRef := r.codeRef
  demoRef := r.demoRef
  exportedNames := r.exportedNames.texts?.getD []
  demoExportName := r.demoExportName
  external := r.external.textMap?.getD ∅
  demoExternal := r.demoExternal.textMap?.getD ∅
  internal := r.internal.textMap?.getD ∅
  description := r.description
  version := r.version

/-- The address of the entry in a row. -/
def identifier (r : Row) : Identifier := ⟨r.owner, r.slug⟩

/-- Write one column of a row with that of another. -/
def assign (source : Row) (target : Row) : EntryField → Row
  | .name => { target with name := source.name }
  | .registry => { target with registry := source.registry }
  | .codeRef => { target with codeRef := source.codeRef }
  | .demoRef => { target with demoRef := source.demoRef }
  | .exportedNames => { target with exportedNames := source.exportedNames }
  | .demoExportName => { target with demoExportName := source.demoExportName }
  | .external => { target with external := source.external }
  | .demoExternal => { target with demoExternal := source.demoExternal }
  | .internal => { target with internal := source.internal }
  | .description => { target with description := source.description }

/-- Write some columns of a row, and raise its version. -/
def revised (target source : Row) (fields : List EntryField) : Row :=
  { fields.foldl (assign source) target with version := target.version + 1 }

/-- Rows are listed by owner, then by slug. -/
def before (a b : Row) : Bool := a.owner < b.owner || (a.owner == b.owner && a.slug < b.slug)

/-- Put a row into a sorted list of rows. -/
def insertSorted (r : Row) : List Row → List Row
  | [] => [r]
  | first :: rest => if first.before r then first :: insertSorted r rest else r :: first :: rest

end Row

/-- A store in tables. -/
structure TableStore where
  /-- The rows of the table of source texts. -/
  sources : List SourceUnit
  /-- The rows of the table of entries. -/
  rows : List Row
  deriving Repr

namespace TableStore

variable [RefSupply]

/-- Add a source text. -/
def putSource (name text : String) : StoreM TableStore String := do
  let store ← get
  let ref := RefSupply.ref store.sources.length
  set { store with sources := store.sources ++ [SourceUnit.mk ref name text] }
  pure ref

/-- Find a source text. -/
def getSource? (store : TableStore) (ref : String) : Option SourceUnit :=
  store.sources.find? fun unit => unit.ref == ref

/-- Find the row of an entry. -/
def selectRow (store : TableStore) (identifier : Identifier) : Option Row :=
  store.rows.find? fun r => r.identifier == identifier

/-- Find an entry. -/
def entryAt? (store : TableStore) (identifier : Identifier) : Option Entry :=
  (store.selectRow identifier).map Row.entry

/-- Add an entry. It has to be publishable, and its address must be free. -/
def createEntry (entry : Entry) : StoreM TableStore Entry := do
  StoreM.lift (entry.internal.checkPublishable.mapError .refused)
  let store ← get
  if (store.selectRow entry.identifier).isSome then
    StoreM.refuse (.duplicate entry.identifier.text)
  else
    let stored := { entry with version := 1 }
    set { store with rows := store.rows ++ [Row.ofEntry stored] }
    pure stored

/-- All entries, or all of one owner, by owner and slug. -/
def listEntries (store : TableStore) (owner : Option String) : List Entry :=
  ((store.rows.filter fun r => owner.all (· == r.owner)).foldr Row.insertSorted []).map Row.entry

/-- The statement that writes some columns of the rows that have an address and a version. It counts
the rows that it has written. -/
def conditionalUpdate (identifier : Identifier) (expected : Int) (fields : List EntryField)
    (source : Row) (store : TableStore) : Nat × TableStore :=
  let matching (r : Row) : Bool := r.identifier == identifier && (r.version : Int) == expected
  ((store.rows.filter matching).length,
    { store with
      rows := store.rows.map fun r => if matching r then r.revised source fields else r })

/-- The fields that a patch names, in the order of the columns. -/
def patchedFields (patch : EntryPatch) : List EntryField :=
  EntryField.all.filter fun field => patch.contains field.key

/-- What to answer when no row was written: the entry is gone or has moved on. -/
def lostUpdate (identifier : Identifier) (expected : Int) (store : TableStore) : RegistryError :=
  match store.entryAt? identifier with
  | none => .missingEntry identifier.text
  | some latest => .conflict identifier.text expected latest.version

/-- Change an entry: read its row, compute the change, and write the changed columns if the row has
not moved on since. -/
def updateEntry (identifier : Identifier) (patch : EntryPatch) (expected : Int) :
    StoreM TableStore Entry := do
  let store ← get
  match store.entryAt? identifier with
  | none => StoreM.refuse (.missingEntry identifier.text)
  | some current =>
    let updated ← StoreM.lift (current.patched patch expected)
    let (count, store) :=
      (← get).conditionalUpdate identifier expected (patchedFields patch) (.ofEntry updated)
    set store
    if count = 0 then StoreM.refuse (store.lostUpdate identifier expected)
    else pure updated

instance : RegistryStore TableStore where
  empty := ⟨[], []⟩
  putSource := putSource
  getSource? := getSource?
  createEntry := createEntry
  entryAt? := entryAt?
  listEntries := listEntries
  updateEntry := updateEntry

end TableStore

end ComponentRegistry
