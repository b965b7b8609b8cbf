import ComponentRegistry.Error
import ComponentRegistry.Source.Facts

/-! # The render entry of a demo

A demo is shown by rendering one of its exports: its default export, or else its only one.
-/

namespace ComponentRegistry

/-- The exports of a demo that could be rendered, when it has no default export. -/
def SourceFacts.candidates (facts : SourceFacts) : List String :=
  facts.exportedNames.filter (· != ExportForm.defaultWord)

/-- The export of a demo that is rendered. -/
def SourceFacts.demoEntry (facts : SourceFacts) : Except RegistryError String :=
  match facts.defaultExport with
  | some name => if name = ExportForm.defaultWord then .error .anonymousDemo else .ok name
  | none =>
    match facts.candidates with
    | [name] => .ok name
    | candidates => .error (.ambiguousDemo candidates)

/-- The names that a component exports. -/
def componentNames (text : String) : Except RegistryError (List String) :=
  ((analyzeSource {} "component" text).mapError .unreadable).map SourceFacts.exportedNames

/-- The export of a demo that is rendered, from its text. -/
def demoComponentName (text : String) : Except RegistryError String := do
  let facts ← (analyzeSource {} "demo" text).mapError .unreadable
  facts.demoEntry

end ComponentRegistry
