import ComponentRegistry.Store.Publication

/-! # Sessions

Requests to a store, one after the other. A request that is refused does not end its session.
-/

namespace ComponentRegistry

/-- What a store can be asked for. -/
inductive StoreRequest where
  /-- Store a source text. -/
  | putSource (name text : String)
  /-- Find a stored source text. -/
  | getSource (ref : String)
  /-- Find the text of a stored source. -/
  | sourceText (ref : String)
  /-- Add an entry. -/
  | createEntry (entry : Entry)
  /-- Find an entry. -/
  | entryAt (identifier : Identifier)
  /-- List all entries, or all of one owner. -/
  | listEntries (owner : Option String)
  /-- Change an entry that is expected to have a certain version. -/
  | updateEntry (identifier : Identifier) (patch : EntryPatch) (expected : Int)
  /-- Publish a submission. -/
  | publish (identifier : Identifier) (analysis : SubmissionAnalysis) (labels : EntryLabels)
  /-- Bring an entry up to date with new texts. -/
  | revise (settings : AnalysisSettings) (identifier : Identifier) (component demo : String)
      (slugs : InternalDependencies) (known : OrderedMap String String)

/-- What a store answers. -/
inductive StoreAnswer where
  | ref (r : String)
  | source (unit : Option SourceUnit)
  | text (t : Option String)
  | entry (e : Entry)
  | found (e : Option Entry)
  | entries (list : List Entry)

section

variable {σ : Type} [RegistryStore σ]

/-- Answer a request. -/
def StoreRequest.answer : StoreRequest → StoreM σ StoreAnswer
  | .putSource name text => do pure (.ref (← RegistryStore.putSource name text))
  | .getSource ref => do pure (.source (RegistryStore.getSource? (← get) ref))
  | .sourceText ref => do pure (.text (RegistryStore.sourceText? (← get) ref))
  | .createEntry e => do pure (.entry (← RegistryStore.createEntry e))
  | .entryAt identifier => do pure (.found (RegistryStore.entryAt? (← get) identifier))
  | .listEntries owner => do pure (.entries (RegistryStore.listEntries (← get) owner))
  | .updateEntry identifier patch expected => do
    pure (.entry (← RegistryStore.updateEntry identifier patch expected))
  | .publish identifier analysis labels => do
    pure (.entry (← RegistryStore.publish identifier analysis labels))
  | .revise settings identifier component demo slugs known => do
    pure (.entry (← RegistryStore.revise settings identifier component demo slugs known))

/-- The answers to some requests, and the store that they leave behind. -/
def session : List StoreRequest → σ → List (Except Failure StoreAnswer) × σ
  | [], store => ([], store)
  | request :: rest, store =>
    let (answer, store) := StoreM.run request.answer store
    let (answers, store) := session rest store
    (answer :: answers, store)

end

end ComponentRegistry
