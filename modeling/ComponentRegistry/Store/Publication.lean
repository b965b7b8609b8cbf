import ComponentRegistry.Store

/-! # Publishing and revising

How a submission gets into a store. Publishing writes two source texts and then an entry; whether the
entry is publishable and its address free is looked at before. Revising writes only what has changed.
The texts of a submission and its labels are such that they can be written;
`ComponentRegistry.Store.HandedLabels` tells what comes of labels that cannot.
-/

namespace ComponentRegistry

/-- How a new entry is labelled. -/
structure EntryLabels where
  /-- The name under which it is shown, unless its exports are to give it. -/
  name : Option String := none
  /-- The part of the registry that it belongs to. -/
  registry : String := "ui"
  /-- What it is good for. -/
  description : Option String := none
  deriving Repr, DecidableEq

/-- The first name that is given and not empty: the label's, the main component's, the slug. -/
def EntryLabels.shownName (labels : EntryLabels) (mainName : Option String) (slug : String) :
    String :=
  let given (name : Option String) : Option String := name.filter fun s => !s.isEmpty
  ((given labels.name).or (given mainName)).getD slug

namespace SubmissionAnalysis

/-- The entry for a submission whose texts are stored. It has to be publishable. -/
def entry (analysis : SubmissionAnalysis) (identifier : Identifier) (codeRef demoRef : String)
    (labels : EntryLabels) : Except RegistryError Entry := do
  analysis.internal.checkPublishable
  pure
    { owner := identifier.owner
      slug := identifier.slug
      name := labels.shownName analysis.mainName identifier.slug
      registry := labels.registry
      codeRef
      demoRef
      exportedNames := analysis.exportedNames
      demoExportName := analysis.demoExportName
      external := analysis.external
      demoExternal := analysis.demoExternal
      internal := analysis.internal
      description := labels.description
      version := 1 }

/-- The fields of an entry that a submission determines. -/
def patch (analysis : SubmissionAnalysis) (codeRef demoRef : String) : EntryPatch :=
  .ofPairs
    [(EntryField.codeRef.key, .string codeRef),
      (EntryField.demoRef.key, .string demoRef),
      (EntryField.exportedNames.key, .strings analysis.exportedNames),
      (EntryField.demoExportName.key, .string analysis.demoExportName),
      (EntryField.external.key, .ofTextMap analysis.external),
      (EntryField.demoExternal.key, .ofTextMap analysis.demoExternal),
      (EntryField.internal.key, .ofTextMap analysis.internal)]

end SubmissionAnalysis

namespace Identifier

/-- What the text of a component is called. -/
def codeName (i : Identifier) : String := i.slug ++ ".tsx"

/-- What the text of a demo is called. -/
def demoName (i : Identifier) : String := i.slug ++ ".demo.tsx"

end Identifier

namespace RegistryStore

variable {σ : Type} [RegistryStore σ]

/-- Publish a submission as a new entry. -/
def publish (identifier : Identifier) (analysis : SubmissionAnalysis) (labels : EntryLabels) :
    StoreM σ Entry := do
  StoreM.lift (analysis.internal.checkPublishable.mapError .refused)
  if (entryAt? (← get) identifier).isSome then
    StoreM.refuse (.duplicate identifier.text)
  else
    let codeRef ← putSource identifier.codeName analysis.component
    let demoRef ← putSource identifier.demoName analysis.demo
    let entry ←
      StoreM.lift ((analysis.entry identifier codeRef demoRef labels).mapError .refused)
    createEntry entry

/-- Where a text is stored: where it is already, if that is the same text, and in a new place if
not. -/
def keepSource (ref name text : String) : StoreM σ String := do
  if sourceText? (← get) ref = some text then pure ref else putSource name text

/-- Bring an entry up to date with a new component and demo. The entries that are known for local
paths stay; `slugs` names new ones. Nothing is written when nothing has changed. -/
def revise (settings : AnalysisSettings) (identifier : Identifier) (component demo : String)
    (slugs : InternalDependencies) (known : OrderedMap String String) : StoreM σ Entry := do
  match entryAt? (← get) identifier with
  | none => StoreM.refuse (.missingEntry identifier.text)
  | some current =>
    let existing := current.internal.insertAll slugs.pairs
    let analysis ← StoreM.lift (analyzeSubmission settings component demo existing known)
    StoreM.lift (analysis.internal.checkPublishable.mapError .refused)
    let codeRef ← keepSource current.codeRef identifier.codeName analysis.component
    let demoRef ← keepSource current.demoRef identifier.demoName analysis.demo
    let changed ← StoreM.lift (current.changedFields (analysis.patch codeRef demoRef))
    if changed.isEmpty then pure current
    else updateEntry identifier changed current.version

end RegistryStore

end ComponentRegistry
