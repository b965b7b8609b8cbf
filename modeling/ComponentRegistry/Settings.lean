import ComponentRegistry.Dependency.External
import ComponentRegistry.Document.Toml
import ComponentRegistry.Error
import ComponentRegistry.Manifest
import ComponentRegistry.Submission
import ComponentRegistry.Text.Lines

/-! # Settings

What can be configured, read from a settings file. The file has a table for each part of the
registry; what it does not say has a default. Values are kept as they are written, and are looked at
only when they are used.
-/

namespace ComponentRegistry

/-- How sources are analyzed. -/
structure AnalysisOptions where
  /-- Beginnings of relative paths. -/
  localPrefixes : Value
  /-- Beginnings that stand for the package root. -/
  aliasPrefixes : Value
  /-- What is recorded when no version is known. -/
  sentinel : Value

/-- How dependencies are resolved. -/
structure ResolverOptions where
  /-- How many entries are read at a time. -/
  maxWorkers : Value
  /-- How many seconds an entry is waited for. -/
  fetchTimeout : Value

/-- How manifests are served. -/
structure ServerOptions where
  /-- The address on which requests come in. -/
  host : Value
  /-- The number that goes with the address. -/
  portNumber : Value
  /-- The extension of the files of a manifest. -/
  fileExtension : Value
  /-- Number of attempts to reach the store. -/
  retryAttempts : Value
  /-- The first delay between attempts. -/
  initialDelay : Value
  /-- The longest delay between attempts. -/
  longestDelay : Value

/-- Where entries are kept. -/
structure StoreOptions where
  /-- The path of the database. -/
  databasePath : Value

/-- All settings. -/
structure Settings where
  analysis : AnalysisOptions
  resolver : ResolverOptions
  server : ServerOptions
  store : StoreOptions

namespace Settings

/-- A table of a settings file. A missing table is empty; anything else than a table is refused. -/
def sectionOf (fields : Toml.Fields) (name : String) : Except Failure Toml.Fields :=
  match Value.field? fields name with
  | none => .ok []
  | some (.object inner) => .ok inner
  | some _ => .error .notTable

/-- What a table says, or the default. -/
def setting (fields : Toml.Fields) (name : String) (default : Value) : Value :=
  (Value.field? fields name).getD default

/-- A double with one decimal place. -/
def tenths (n : Nat) : Value := .float (.ofDecimal false n (-1))

/-- How sources are analyzed, as a table says. -/
def analysisOf (fields : Toml.Fields) : AnalysisOptions where
  localPrefixes := setting fields "local_prefixes" (.strings ["./", "../"])
  aliasPrefixes := setting fields "alias_prefixes" (.list [])
  sentinel := setting fields "version_sentinel" (.string VersionSource.latest)

/-- How dependencies are resolved, as a table says. -/
def resolverOf (fields : Toml.Fields) : ResolverOptions where
  maxWorkers := setting fields "max_workers" (.int 4)
  fetchTimeout := setting fields "fetch_timeout_seconds" .null

/-- How manifests are served, as a table says. -/
def serverOf (fields : Toml.Fields) : ServerOptions where
  host := setting fields "host" (.string "127.0.0.1")
  portNumber := setting fields "port" (.int 8000)
  fileExtension := setting fields "file_extension" (.string Manifest.defaultExtension)
  retryAttempts := setting fields "retry_attempts" (.int 3)
  initialDelay := setting fields "retry_initial_delay_seconds" (tenths 1)
  longestDelay := setting fields "retry_max_delay_seconds" (tenths 20)

/-- Where entries are kept, as the environment or else a settings file says. -/
def storeOf (fields : Toml.Fields) (environment : Option String) : Except Failure StoreOptions :=
  match environment.filter fun path => !path.isEmpty with
  | some path => .ok ⟨.string path⟩
  | none =>
    (sectionOf fields "store").map fun table =>
      ⟨setting table "db_path" (.string ".registrar/registry.db")⟩

/-- The settings in the fields of a settings file. -/
def ofFields (fields : Toml.Fields) (environment : Option String) : Except Failure Settings := do
  let analysis ← sectionOf fields "analysis"
  let resolver ← sectionOf fields "resolver"
  let server ← sectionOf fields "server"
  let store ← storeOf fields environment
  pure ⟨analysisOf analysis, resolverOf resolver, serverOf server, store⟩

/-- The settings in the text of a settings file, if there is one. Any line ending is as good as a
line feed. -/
def ofText (text : Option String) (environment : Option String) : Except Failure Settings :=
  match text with
  | none => ofFields [] environment
  | some text =>
    match Toml.parse? (Lines.normalize text.toList) with
    | some fields => ofFields fields environment
    | none => .error .invalidToml

end Settings

namespace AnalysisOptions

/-- The beginnings in a setting. A text counts as its characters, a table as its names. -/
def beginnings (v : Value) : Except Failure (List Value) :=
  match PackageVersions.parts? v with
  | some parts => .ok parts
  | none => .error .notIterable

/-- Whether beginnings tell if a path begins with one of them. One that is no text stands in the way
unless an earlier one fits. -/
def settles (path : String) : List Value → Bool
  | [] => true
  | .string b :: rest => beginsWithAny [b] path || settles path rest
  | _ :: _ => false

/-- The beginnings of the paths that stay inside the registry, as they are written. -/
structure Beginnings where
  /-- Beginnings of relative paths. -/
  relative : List Value
  /-- Beginnings that stand for the package root. -/
  root : List Value

namespace Beginnings

/-- Which paths stay inside the registry, as far as the beginnings are texts. -/
def table (b : Beginnings) : ResolutionTable where
  localPrefixes := b.relative.filterMap Value.string?
  aliasPrefixes := b.root.filterMap Value.string?

/-- Whether it can be told if a path stays inside the registry. -/
def decides (b : Beginnings) (path : String) : Bool :=
  path == "." || path == ".." ||
    (settles path b.relative &&
      (beginsWithAny b.table.localPrefixes path || settles path b.root))

/-- Refuse facts about paths of which nothing can be told. -/
def check (b : Beginnings) (facts : SourceFacts) : Except Failure Unit :=
  if facts.importFacts.all fun f => b.decides f.path then .ok () else .error .notIterable

end Beginnings

/-- Analyze a component and its demo with the versions that a package file asks for. -/
def analyze (options : AnalysisOptions) (component demo : String)
    (existing : InternalDependencies) (known : PackageVersions) :
    Except Failure SubmissionAnalysis := do
  let relative ← beginnings options.localPrefixes
  let root ← beginnings options.aliasPrefixes
  let found : Beginnings := { relative, root }
  let component ← (readyComponent found.table component).mapError .refused
  found.check component.facts
  let demo ← (readyDemo found.table component.facts.exportedNames demo).mapError .refused
  found.check demo.facts
  assembleAnalysis (.ofPackageVersions known options.sentinel) component demo existing

end AnalysisOptions

namespace ResolverOptions

/-- Refuse to resolve without a number of entries that are read at a time. -/
def checkWorkers (options : ResolverOptions) : Except Failure Unit :=
  if options.maxWorkers.asNumber?.isSome then .ok () else .error .notIterable

/-- Refuse to wait for something that is no number of seconds. -/
def checkTimeout (options : ResolverOptions) : Except Failure Unit :=
  match options.fetchTimeout with
  | .null => .ok ()
  | timeout => if timeout.asNumber?.isSome then .ok () else .error .notIterable

end ResolverOptions

end ComponentRegistry
