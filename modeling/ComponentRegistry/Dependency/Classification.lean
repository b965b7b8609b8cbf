import ComponentRegistry.Dependency.External
import ComponentRegistry.Dependency.Internal

/-! # Classified dependencies

The imports of a component and of its demo, sorted into packages and entries of the registry.
-/

namespace ComponentRegistry

/-- The dependencies of a component and its demo. -/
structure DependencyMaps (ν : Type) where
  /-- Packages of the component. -/
  external : OrderedMap String ν
  /-- Packages of the demo. -/
  demoExternal : OrderedMap String ν
  /-- Entries that either of them imports. -/
  internal : InternalDependencies
  deriving Repr

/-- The imports that lead to packages, and those that stay inside the registry. -/
def partitionImports (facts : List ImportFact) : List ImportFact × List ImportFact :=
  facts.partition fun f => f.kind = .package

/-- Classify the imports of a component and its demo, keeping the entries that are known for local
paths. -/
def classify {ν : Type} [BEq ν] (source : VersionSource ν) (component demo : List ImportFact)
    (existing : InternalDependencies) : DependencyMaps ν where
  external := externalDependencies source (partitionImports component).1
  demoExternal := externalDependencies source (partitionImports demo).1
  internal := .ofPaths (localPaths ((partitionImports component).2 ++ (partitionImports demo).2))
    existing

section

variable {ν : Type} [BEq ν] (source : VersionSource ν)

theorem externalDependencies_partitionImports (facts : List ImportFact) :
    externalDependencies source (partitionImports facts).1 = externalDependencies source facts := by
  simp [externalDependencies, partitionImports, List.partition_eq_filter_filter]

theorem localPaths_partitionImports (component demo : List ImportFact) :
    localPaths ((partitionImports component).2 ++ (partitionImports demo).2) =
      localPaths (component ++ demo) := by
  have locals : ∀ facts : List ImportFact,
      (partitionImports facts).2.filter (·.kind = .localFile) =
        facts.filter (·.kind = .localFile) := by
    intro facts
    simp only [partitionImports, List.partition_eq_filter_filter, List.filter_filter]
    refine List.filter_congr fun f _ => ?_
    cases hk : f.kind <;> simp [hk]
  rw [localPaths, List.filter_append, locals, locals, ← List.filter_append, localPaths]

/-- Imports are sorted by their kinds in any case, also where they are not parted before. -/
theorem classify_eq (component demo : List ImportFact) (existing : InternalDependencies) :
    classify source component demo existing =
      ⟨externalDependencies source component, externalDependencies source demo,
        .ofPaths (localPaths (component ++ demo)) existing⟩ := by
  rw [classify, externalDependencies_partitionImports, externalDependencies_partitionImports,
    localPaths_partitionImports]

end

/-- A map whose values are all texts. -/
def textValues {ν : Type} (text? : ν → Option String) (m : OrderedMap String ν) :
    Option (OrderedMap String String) :=
  if m.values.all fun v => (text? v).isSome then some (m.map fun v => (text? v).getD "") else none

/-- The same dependencies with their versions as texts; anything else is no version. -/
def DependencyMaps.texts {ν : Type} (source : VersionSource ν) (maps : DependencyMaps ν) :
    Except Failure (DependencyMaps String) :=
  match textValues source.text? maps.external, textValues source.text? maps.demoExternal with
  | some external, some demoExternal => .ok ⟨external, demoExternal, maps.internal⟩
  | _, _ => .error .invalidValue

end ComponentRegistry
