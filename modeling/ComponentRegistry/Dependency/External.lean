import ComponentRegistry.Dependency.PackageVersions
import ComponentRegistry.OrderedMap
import ComponentRegistry.Source.Facts

/-! # External dependencies

The packages that a source unit needs, each with a version. Several imports may lead into one
package; the first version that is known counts.
-/

namespace ComponentRegistry

/-- Where the versions of packages come from. -/
structure VersionSource (ν : Type) where
  /-- The version that is known for a path, if any. -/
  known : String → Option ν
  /-- What is recorded when no version is known. -/
  sentinel : ν
  /-- A version as text, if it is one. -/
  text? : ν → Option String

namespace VersionSource

/-- What is recorded by default when no version is known. -/
def latest : String := "latest"

/-- Versions from a map of texts. An empty text is no version. -/
def ofMap (known : OrderedMap String String) (sentinel : String) : VersionSource String where
  known path := (known.get? path).filter fun version => !version.isEmpty
  sentinel := sentinel
  text? := some

/-- Versions from a package file, with a sentinel of any form. -/
def ofPackageVersions (known : PackageVersions) (sentinel : Value) : VersionSource Value where
  known path := (known.get? path).filter Value.isGiven
  sentinel := sentinel
  text? := Value.string?

/-- The version for a path: its own, or that of its package, or the sentinel. -/
def versionOf {ν : Type} (source : VersionSource ν) (path : String) : ν :=
  ((source.known path).or (source.known (packageName path))).getD source.sentinel

end VersionSource

instance : BEq Value := ⟨Value.sameKey⟩

/-- Add the package of an import to the versions found so far. A version that is recorded already is
replaced only if it is the sentinel and this one is not. -/
def addDependency {ν : Type} [BEq ν] (source : VersionSource ν) (found : OrderedMap String ν)
    (path : String) : OrderedMap String ν :=
  let version := source.versionOf path
  match found.get? (packageName path) with
  | none => found.insert (packageName path) version
  | some existing =>
    if existing == source.sentinel && version != source.sentinel then
      found.insert (packageName path) version
    else found

/-- The packages that some imports need, with their versions. -/
def externalDependencies {ν : Type} [BEq ν] (source : VersionSource ν) (facts : List ImportFact) :
    OrderedMap String ν :=
  ((facts.filter fun f => f.kind = .package).map ImportFact.path).foldl (addDependency source) ∅

end ComponentRegistry
