import ComponentRegistry.Dependency.Identifier
import ComponentRegistry.OrderedMap
import ComponentRegistry.Source.Facts

/-! # Internal dependencies

The files of the registry that a source unit imports, and the entries that they stand for. An entry
can be published only when all of them are known.
-/

namespace ComponentRegistry

/-- Entries by local import path; an empty or blank text means that the entry is not known yet. -/
abbrev InternalDependencies := OrderedMap String String

/-- The distinct local paths of some imports. -/
def localPaths (facts : List ImportFact) : List String :=
  firstOccurrences ((facts.filter fun f => f.kind = .localFile).map ImportFact.path)

namespace InternalDependencies

/-- The internal dependencies on some paths. A path keeps the entry that it had, and a new path has
none. -/
def ofPaths (paths : List String) (existing : InternalDependencies) : InternalDependencies :=
  OrderedMap.ofKeys (firstOccurrences paths) (nodup_firstOccurrences paths) fun path =>
    (existing.get? path).getD ""

/-- The paths whose entry is not known. -/
def unresolved (m : InternalDependencies) : List String :=
  (m.pairs.filter fun (_, value) => isBlankText value).map Prod.fst

/-- Whether the entries of all paths are known. -/
def isPublishable (m : InternalDependencies) : Bool :=
  m.values.all fun value => !isBlankText value

/-- Refuse to publish while some entry is not known. -/
def checkPublishable (m : InternalDependencies) : Except RegistryError Unit :=
  if m.unresolved.isEmpty then .ok () else .error (.unresolvedDependencies m.unresolved)

/-- The distinct identifiers of the entries. -/
def identifiers (m : InternalDependencies) (owner : String) : List String :=
  firstOccurrences (m.values.map (Identifier.canonical owner))

end InternalDependencies

end ComponentRegistry
