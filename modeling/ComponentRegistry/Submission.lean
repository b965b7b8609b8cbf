import ComponentRegistry.Dependency.Classification
import ComponentRegistry.Rewrite.DefaultExport
import ComponentRegistry.Rewrite.SelfImport
import ComponentRegistry.Source.DemoEntry

/-! # Submissions

A component and its demo, made ready to be stored: both are rewritten, then their facts are read off
the rewritten texts, then their dependencies are classified.
-/

namespace ComponentRegistry

/-- A component that is ready to be stored. -/
structure ReadyComponent where
  /-- Its text, with the default export importable by name. -/
  text : String
  /-- What is known about the text. -/
  facts : SourceFacts
  deriving Repr, DecidableEq

/-- A demo that is ready to be stored. -/
structure ReadyDemo where
  /-- Its text, with synchronous exports and without imports of the component's names. -/
  text : String
  /-- The paths of the imports that were touched. -/
  removedImports : List String
  /-- What is known about the text. -/
  facts : SourceFacts
  deriving Repr, DecidableEq

/-- A fault in a source unit as an error of the registry. -/
def inUnit (source text : String) (x : Except Fault α) : Except RegistryError α :=
  x.mapError fun fault => .unreadable ⟨source, text, fault⟩

/-- Make a component ready. -/
def readyComponent (table : ResolutionTable) (text : String) :
    Except RegistryError ReadyComponent := do
  let rewritten ← inUnit "component" text (nameDefaultExport text.toList)
  let facts ← (analyzeSource table "component" (String.ofList rewritten)).mapError .unreadable
  pure ⟨String.ofList rewritten, facts⟩

/-- Make a demo of a component ready, given the names that the component exports. -/
def readyDemo (table : ResolutionTable) (names : List String) (text : String) :
    Except RegistryError ReadyDemo := do
  let synchronous ← inUnit "demo" text (removeAsyncExports text.toList)
  let removal ← inUnit "demo" (String.ofList synchronous) (removeSelfImports names synchronous)
  let facts ← (analyzeSource table "demo" (String.ofList removal.text)).mapError .unreadable
  pure ⟨String.ofList removal.text, removal.removed, facts⟩

/-- Everything that is known about a submission. -/
structure SubmissionAnalysis where
  /-- The names that the component exports. -/
  exportedNames : List String
  /-- The export of the demo that is rendered. -/
  demoExportName : String
  /-- Packages of the component, with versions. -/
  external : OrderedMap String String
  /-- Packages of the demo, with versions. -/
  demoExternal : OrderedMap String String
  /-- Entries that either of them imports. -/
  internal : InternalDependencies
  /-- The component's text as it is to be stored. -/
  component : String
  /-- The demo's text as it is to be stored. -/
  demo : String
  /-- The paths of the demo's imports that were touched. -/
  removedImports : List String
  /-- The name under which the component is shown, if its exports give one. -/
  mainName : Option String
  /-- Whether a preview can render it. -/
  previewReady : Bool
  deriving Repr, DecidableEq

/-- Put a space in front of every capital letter. -/
def spacedCapitals : List Char → List Char
  | [] => []
  | c :: rest => if c.isUpper then ' ' :: c :: spacedCapitals rest else c :: spacedCapitals rest

/-- The name under which a component is shown: its first export that begins with a capital letter,
with its words apart. -/
def displayName? (names : List String) : Option String :=
  (names.find? fun name => name.toList.head?.any Char.isUpper).map fun name =>
    String.ofList (trimChars (spacedCapitals name.toList))

/-- Whether a preview can render a submission: it needs both texts, and no entries of the
registry. -/
def isPreviewReady (component demo : String) (internal : InternalDependencies) : Bool :=
  !isBlankText component && !isBlankText demo && internal.isEmpty

/-- Put together what is known about a submission whose texts are ready. -/
def assembleAnalysis {ν : Type} [BEq ν] (versions : VersionSource ν) (component : ReadyComponent)
    (demo : ReadyDemo) (existing : InternalDependencies) : Except Failure SubmissionAnalysis := do
  let demoExportName ← demo.facts.demoEntry.mapError .refused
  let maps ←
    (classify versions component.facts.importFacts demo.facts.importFacts existing).texts versions
  pure
    { exportedNames := component.facts.exportedNames
      demoExportName
      external := maps.external
      demoExternal := maps.demoExternal
      internal := maps.internal
      component := component.text
      demo := demo.text
      removedImports := demo.removedImports
      mainName := displayName? component.facts.exportedNames
      previewReady := isPreviewReady component.text demo.text maps.internal }

/-- How sources are analyzed. -/
structure AnalysisSettings where
  /-- Which paths stay inside the registry. -/
  table : ResolutionTable := {}
  /-- What is recorded when no version is known. -/
  sentinel : String := VersionSource.latest
  deriving Repr, DecidableEq

/-- Analyze a component and its demo, given the entries that are known for local paths and the
versions that are known for packages. -/
def analyzeSubmission (settings : AnalysisSettings) (component demo : String)
    (existing : InternalDependencies) (known : OrderedMap String String) :
    Except Failure SubmissionAnalysis := do
  let component ← (readyComponent settings.table component).mapError .refused
  let demo ← (readyDemo settings.table component.facts.exportedNames demo).mapError .refused
  assembleAnalysis (.ofMap known settings.sentinel) component demo existing

end ComponentRegistry
