import ComponentRegistry.Text.Lines

/-! # Local paths and packages

Whether an import path stays inside the registry or names a package, and which package it names.
-/

namespace ComponentRegistry

/-- Where an import path leads. -/
inductive ImportKind where
  /-- To a package that has to be installed. -/
  | package
  /-- To a file of the same registry. -/
  | localFile
  deriving Repr, DecidableEq

/-- The word for a kind of import. -/
def ImportKind.word : ImportKind → String
  | package => "package"
  | localFile => "local"

/-- The beginnings of the paths that stay inside the registry: relative ones, and configured
aliases of the package root. -/
structure ResolutionTable where
  /-- Beginnings of relative paths. -/
  localPrefixes : List String := ["./", "../"]
  /-- Beginnings that stand for the package root. -/
  aliasPrefixes : List String := []
  deriving Repr, DecidableEq

/-- Whether a path begins with one of some beginnings. -/
def beginsWithAny (beginnings : List String) (path : String) : Bool :=
  beginnings.any fun b => b.toList.isPrefixOf path.toList

namespace ResolutionTable

/-- Whether a path stays inside the registry. The current and the parent directory do so by
themselves. -/
def isLocal (table : ResolutionTable) (path : String) : Bool :=
  path == "." || path == ".." || beginsWithAny table.localPrefixes path ||
    beginsWithAny table.aliasPrefixes path

/-- Where a path leads. -/
def kindOf (table : ResolutionTable) (path : String) : ImportKind :=
  if table.isLocal path then .localFile else .package

end ResolutionTable

/-- The segments of a path that make up its package name: two when the package has a scope. -/
def packageSegments (path : List Char) : List (List Char) :=
  let segments := Lines.splitAt '/' path
  segments.take (if path.head? = some '@' then 2 else 1)

/-- The package that a path leads into. -/
def packageName (path : String) : String :=
  String.ofList (['/'].intercalate (packageSegments path.toList))

end ComponentRegistry
