import ComponentRegistry.CommandLine.Location
import ComponentRegistry.Store.Table

/-! # Workspaces

What the command line works with: the texts in files, and the stores in databases. A workspace can
be kept in memory.
-/

namespace ComponentRegistry

/-- What there is at a path. -/
inductive Holding where
  /-- Nothing. -/
  | nothing
  /-- A directory. -/
  | directory
  /-- A file with a text. -/
  | text (contents : String)
  /-- A file with anything else. -/
  | noText

/-- Why a database cannot be used. -/
inductive DatabaseFault where
  /-- There is a directory in its place. -/
  | cannotOpen
  /-- It forgets everything at once, even its own tables. -/
  | noTables
  /-- There is a file in the place of the directory for it. -/
  | directoryTaken
  /-- There is a file in the place of a directory further up. -/
  | notDirectory
  /-- There is a file in its place that is no database. -/
  | noDatabase
  deriving Repr, DecidableEq

/-- What can be done in a workspace. -/
class Workspace (m : Type → Type) where
  /-- Look what there is at a path. -/
  look : String → m Holding
  /-- Open a database, which is made if it is missing. -/
  openStore : String → m (Except DatabaseFault TableStore)
  /-- Write a database. -/
  saveStore : String → TableStore → m Unit

/-- The path that stands for a database that is never written. -/
def unwrittenDatabase : String := ":memory:"

/-- A workspace in memory. -/
structure Shelf where
  /-- The texts of files. -/
  texts : OrderedMap Location String := ∅
  /-- The stores in databases. -/
  stores : OrderedMap Location TableStore := ∅
  /-- The directories. -/
  directories : List Location := []

namespace Shelf

/-- Put a file with a text on the shelf, and the directories around it. -/
def addText (shelf : Shelf) (path contents : String) : Shelf :=
  let place := (Location.ofText path).target
  { shelf with
    texts := shelf.texts.insert place contents
    directories := place.above ++ shelf.directories }

/-- Whether there is a directory at a location. The place where paths begin is one, and so is
everything above it. -/
def isDirectory (shelf : Shelf) (place : Location) : Bool :=
  place.names.all (· == "..") || shelf.directories.contains place

/-- Whether there is a file at a location. -/
def isFile (shelf : Shelf) (place : Location) : Bool :=
  shelf.texts.contains place || shelf.stores.contains place

/-- What there is at a path. -/
def look (shelf : Shelf) (path : String) : Holding :=
  let place := (Location.ofText path).target
  match shelf.texts.get? place with
  | some contents => .text contents
  | none =>
    if shelf.isDirectory place then .directory
    else if shelf.stores.contains place then .noText
    else .nothing

/-- What stands in the way of a database at a location. -/
def fault? (shelf : Shelf) (place : Location) : Option DatabaseFault :=
  if shelf.isFile place.parent then some .directoryTaken
  else if place.above.any shelf.isFile then some .notDirectory
  else if shelf.isDirectory place then some .cannotOpen
  else
    match shelf.texts.get? place with
    | some contents => if contents.isEmpty then none else some .noDatabase
    | none => none

/-- Open a database. -/
def openStore (path : String) : StateM Shelf (Except DatabaseFault TableStore) := do
  if path == unwrittenDatabase then return .ok RegistryStore.empty
  if path.isEmpty then return .error .noTables
  let shelf ← get
  let place := (Location.ofText path).target
  match shelf.fault? place with
  | some fault => return .error fault
  | none =>
    let store := (shelf.stores.get? place).getD RegistryStore.empty
    set { shelf with
      stores := shelf.stores.insert place store
      directories := place.above ++ shelf.directories }
    return .ok store

/-- Write a database. -/
def saveStore (path : String) (store : TableStore) : StateM Shelf Unit := do
  if path == unwrittenDatabase then return
  let place := (Location.ofText path).target
  modify fun shelf => { shelf with stores := shelf.stores.insert place store }

instance : Workspace (StateM Shelf) where
  look path := do pure ((← get).look path)
  openStore := openStore
  saveStore := saveStore

end Shelf

end ComponentRegistry
