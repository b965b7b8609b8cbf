import ComponentRegistry.CommandLine.Console
import ComponentRegistry.CommandLine.Invocation
import ComponentRegistry.CommandLine.Workspace
import ComponentRegistry.Document.JsonLayout
import ComponentRegistry.Settings
import ComponentRegistry.Store.Publication

/-! # Running commands

What a list of arguments does in a workspace, and what it shows. A result is shown as a document;
messages go to the console.
-/

namespace ComponentRegistry.CommandLine

/-- Why a command breaks off without a message of its own. -/
inductive Breakdown where
  /-- An operation has failed. -/
  | failure (f : Failure)
  /-- There is a directory where a file is to be read. -/
  | directory
  /-- There is something else than text in a file. -/
  | noText
  /-- A database cannot be used. -/
  | database (fault : DatabaseFault)
  deriving Repr, DecidableEq

/-- How a run of the program ends. -/
inductive Ending where
  /-- With an exit code and with what was shown. -/
  | finished (code : Nat) (output console : String)
  /-- With help on how to use the program. -/
  | helped
  /-- With a refusal of its arguments. -/
  | misused
  /-- In the middle. -/
  | brokenOff (cause : Breakdown)

/-- Why a command ends early. -/
inductive Interruption where
  /-- A message says why. -/
  | notice (message : String)
  /-- The arguments make no sense after all. -/
  | misuse
  /-- Nothing says why. -/
  | breakdown (cause : Breakdown)

/-- A part of a command. -/
abbrev Action (m : Type → Type) := ExceptT Interruption m

/-- The name of the settings file that is looked for. -/
def settingsFile : String := "registrar.toml"

/-- What is shown as the version of the program. -/
def versionText : String := "registrar version 0.3.0\n"

/-- What is said while some entries are not known. -/
def slugReminder : String := "Please specify the slug for all internal dependencies"

/-- A failure as the end of a command: a refusal is reported, anything else breaks off. -/
def Interruption.ofFailure : Failure → Interruption
  | .refused error => .notice ("Error: " ++ error.message)
  | failure => .breakdown (.failure failure)

section

variable {m : Type → Type} [Monad m]

/-- A result of an operation. -/
def attempt {α : Type} (x : Except Failure α) : Action m α :=
  match x with
  | .ok a => pure a
  | .error failure => throw (.ofFailure failure)

/-- A result of an operation that can only be refused. -/
def attemptRequest {α : Type} (x : Except RegistryError α) : Action m α :=
  attempt (x.mapError .refused)

variable [Workspace m]

/-- What there is at a path. -/
def lookAt (path : String) : Action m Holding := ExceptT.lift (Workspace.look path)

/-- The contents of a file as they are written. -/
def contentsOf (path : String) (absent : String) : Action m String := do
  match ← lookAt path with
  | .text contents => pure contents
  | .directory => throw (.breakdown .directory)
  | .noText => throw (.breakdown .noText)
  | .nothing => throw (.notice (absent ++ (Location.ofText path).text))

/-- The text in a file. Any line ending is as good as a line feed. -/
def readText (path : String) : Action m String := do
  let contents ← contentsOf path "File not found: "
  pure (String.ofList (Lines.normalize contents.toList))

/-- The text of the settings file: of one that is named, or of the usual one if there is one. -/
def settingsText (path : Option String) : Action m (Option String) := do
  match path with
  | some path => pure (some (← contentsOf path "Config file not found: "))
  | none =>
    match ← lookAt settingsFile with
    | .text contents => pure (some contents)
    | .directory => throw (.breakdown .directory)
    | .noText => throw (.breakdown .noText)
    | .nothing => pure none

/-- The settings. -/
def readSettings (path : Option String) (environment : Option String) : Action m Settings := do
  attempt (Settings.ofText (← settingsText path) environment)

/-- The entries that a document names for local paths. Without a document there are none. -/
def readInternal (document : Option String) : Action m InternalDependencies := do
  match document.filter fun d => !d.isEmpty with
  | none => pure ∅
  | some d =>
    match Json.parse? d.toList with
    | some (.object fields) => pure (.ofPairs (fields.map fun (path, slug) => (path, slug.text)))
    | _ => throw .misuse

/-- The versions in a package file. Without a file there are none. -/
def readVersions (path : Option String) : Action m PackageVersions := do
  match path with
  | none => pure []
  | some path => attempt (PackageVersions.ofText (← readText path))

/-- What is known about a submission. -/
def readSubmission (settings : Settings) (sources : SubmissionArguments) :
    Action m SubmissionAnalysis := do
  let component ← readText sources.component
  let demo ← readText sources.demo
  let existing ← readInternal sources.internal
  let known ← readVersions sources.packageFile
  attempt (settings.analysis.analyze component demo existing known)

/-- What is shown of an analysis. -/
def analysisDocument (a : SubmissionAnalysis) : Value :=
  .object
    [("exported_names", .strings a.exportedNames),
      ("demo_export_name", .string a.demoExportName),
      ("external_dependencies", .ofTextMap a.external),
      ("demo_external_dependencies", .ofTextMap a.demoExternal),
      ("internal_dependencies", .ofTextMap a.internal),
      ("rewritten_component", .string a.component),
      ("rewritten_demo", .string a.demo),
      ("removed_imports", .strings a.removedImports),
      ("main_component_name", (a.mainName.map Value.string).getD .null),
      ("preview_ready", .bool a.previewReady)]

/-- A document as a result. -/
def resultText (v : Value) : String := JsonLayout.lines v ++ "\n"

/-- The path of the database: the one that is named, or the one in the settings. -/
def databasePath (settings : Settings) (named : Option String) : String :=
  match named with
  | some path => (Location.ofText path).text
  | none => settings.store.databasePath.text

/-- The error for a database that cannot be used. -/
def databaseUnavailable (reason : String) : RegistryError :=
  .unavailable ("Registry database unavailable: " ++ reason)

/-- Use a database: what cannot be opened is reported or breaks off; without tables, what was to be
checked before the first reading is still checked. -/
def openDatabase (path : String) (beforeReading : Except RegistryError Unit) :
    Action m TableStore := do
  match ← ExceptT.lift (Workspace.openStore path) with
  | .ok store => pure store
  | .error .cannotOpen =>
    attemptRequest (.error (databaseUnavailable "unable to open database file"))
  | .error .noTables =>
    attemptRequest beforeReading
    attemptRequest (.error (databaseUnavailable "no such table: entries"))
  | .error fault => throw (.breakdown (.database fault))

/-- Show what is known about a submission. -/
def runAnalyze (settings : Settings) (sources : SubmissionArguments) : Action m Ending := do
  let analysis ← readSubmission settings sources
  let console := if analysis.internal.isPublishable then "" else Console.shown slugReminder
  pure (.finished 0 (resultText (analysisDocument analysis)) console)

/-- Store a submission as a new entry. -/
def runPublish (settings : Settings) (identifier : String) (sources : SubmissionArguments)
    (labels : EntryLabels) (database : Option String) : Action m Ending := do
  let identifier ← attemptRequest (Identifier.parse identifier)
  let analysis ← readSubmission settings sources
  let path := databasePath settings database
  let store ← openDatabase path analysis.internal.checkPublishable
  let (published, store) := (RegistryStore.publish identifier analysis labels).run store
  ExceptT.lift (Workspace.saveStore path store)
  let entry ← attempt published
  pure (.finished 0 "" (Console.shown ("Published " ++ entry.identifier.text)))

/-- Show the manifest of an entry. -/
def runResolve (settings : Settings) (identifier : String) (database : Option String) :
    Action m Ending := do
  let identifier ← attemptRequest (Identifier.parse identifier)
  let store ← openDatabase (databasePath settings database) (.ok ())
  let catalog := RegistryStore.catalog store
  let root ← attemptRequest (catalog.fetchRoot identifier)
  attempt settings.resolver.checkWorkers
  let _ ← attemptRequest (Search.start (Catalog.seedsOf root identifier.owner))
  attempt settings.resolver.checkTimeout
  let manifest ← attemptRequest (catalog.manifest identifier settings.server.fileExtension.text)
  pure (.finished 0 (resultText manifest.document) "")

/-- Run a command. -/
def runCommand (settings : Settings) : Command → Action m Ending
  | .analyze sources => runAnalyze settings sources
  | .publish identifier sources registry name description database =>
    runPublish settings identifier sources { name, registry, description } database
  | .resolve identifier database => runResolve settings identifier database

/-- Read the settings, then do what is asked for. -/
def runRequest (settings : Option String) (environment : Option String) (r : Request) :
    Action m Ending := do
  let settings ← readSettings settings environment
  match r with
  | .command c => runCommand settings c
  | .help => pure .helped
  | .misuse => pure .misused

/-- How an interruption ends a run. -/
def Interruption.ending : Interruption → Ending
  | .notice message => .finished 1 "" (Console.shown message)
  | .misuse => .misused
  | .breakdown cause => .brokenOff cause

/-- Run the program. `environment` is the path of the database that the environment names. -/
def run (environment : Option String) (arguments : List String) : m Ending := do
  match Invocation.ofArguments arguments with
  | .version => pure (.finished 0 versionText "")
  | .help => pure .helped
  | .misuse => pure .misused
  | .request settings r =>
    match ← (runRequest settings environment r : Action m Ending).run with
    | .ok ending => pure ending
    | .error interruption => pure interruption.ending

end

end ComponentRegistry.CommandLine
