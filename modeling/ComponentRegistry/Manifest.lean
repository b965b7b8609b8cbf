import ComponentRegistry.Document.Value
import ComponentRegistry.Resolution.Closure

/-! # Manifests

What an installer gets for an entry: one file for each entry of its closure, and the packages that
the entry itself needs.
-/

namespace ComponentRegistry

/-- A file to install. -/
structure ManifestFile where
  /-- Where it belongs. -/
  path : String
  /-- Its text. -/
  content : String
  /-- What kind of file it is. -/
  kind : String
  /-- Where the installer is to put it; empty to let the installer choose. -/
  target : String := ""
  deriving Repr, DecidableEq

/-- A list of files to install. -/
structure Manifest where
  /-- The slug of the entry. -/
  name : String
  /-- What kind of entry it is. -/
  kind : String
  /-- The packages that the entry needs. -/
  packages : List String
  /-- The files in the order of discovery. -/
  files : List ManifestFile
  deriving Repr, DecidableEq

namespace Manifest

/-- The kind of things that belong to a part of the registry. -/
def kindOf (registry : String) : String := "registry:" ++ registry

/-- The extension of files by default. -/
def defaultExtension : String := ".tsx"

/-- The path of the file for an entry. -/
def filePath (identifier fileExtension : String) : String := identifier ++ fileExtension

/-- The file for an entry of a closure. -/
def fileOf (fileExtension : String) (e : ResolvedEntry) : ManifestFile where
  path := filePath e.identifier fileExtension
  content := e.text
  kind := kindOf e.registry

/-- The manifest of an entry, given its closure. -/
def ofResolved (root : Entry) (resolved : ResolvedSet) (fileExtension : String) : Manifest where
  name := root.slug
  kind := kindOf root.registry
  packages := root.external.keys
  files := resolved.values.map (fileOf fileExtension)

/-- A file as a document. -/
def fileDocument (f : ManifestFile) : Value :=
  .object
    [("path", .string f.path), ("content", .string f.content), ("type", .string f.kind),
      ("target", .string f.target)]

/-- A manifest as a document. Packages are left out when there are none. -/
def document (m : Manifest) : Value :=
  .object
    ([("name", .string m.name), ("type", .string m.kind)] ++
      (if m.packages.isEmpty then [] else [("dependencies", .strings m.packages)]) ++
      [("files", .list (m.files.map fileDocument))])

end Manifest

/-- An entry with its closure. -/
structure RootedResolution where
  /-- The entry. -/
  root : Entry
  /-- Its closure. -/
  resolution : Resolution
  /-- The addresses that were asked for, that of the entry among them. -/
  asked : List Identifier

namespace Catalog

/-- Read the entry that was requested. -/
def fetchRoot (catalog : Catalog) (identifier : Identifier) : Except RegistryError Entry :=
  match catalog.fetchEntry identifier.text identifier with
  | .error (.missingDependency _) => .error .missingComponent
  | read => read

/-- What the closure of an entry is searched from: the entry comes first, then its own
dependencies. -/
def seedsOf (root : Entry) (owner : String) : List String :=
  root.identifier.text :: root.internal.identifiers owner

/-- Resolve an entry, which is read first and then known to the search. -/
def resolveRoot (catalog : Catalog) (identifier : Identifier) :
    Except RegistryError RootedResolution := do
  let root ← catalog.fetchRoot identifier
  let search : Search := { catalog, known := .ofPairs [(root.identifier.text, root)] }
  let resolution ← search.resolve (seedsOf root identifier.owner)
  pure ⟨root, resolution, identifier :: resolution.asked⟩

/-- The manifest of an entry. -/
def manifest (catalog : Catalog) (identifier : Identifier) (fileExtension : String) :
    Except RegistryError Manifest :=
  (catalog.resolveRoot identifier).map fun r =>
    .ofResolved r.root r.resolution.resolved fileExtension

end Catalog

end ComponentRegistry
