import ComponentRegistry.Distinct
import ComponentRegistry.Source.ResolutionTable
import ComponentRegistry.Syntax.Outline

/-! # Facts about a source unit

What a source unit exports, and which modules it needs.
-/

namespace ComponentRegistry

/-- One import, or one export from another module. -/
structure ImportFact where
  /-- The path of the module, as the statement says it. -/
  path : String
  /-- Where the path leads. -/
  kind : ImportKind
  /-- The names that come from the module, sorted and each once. -/
  names : List String
  /-- Whether only types come from it. -/
  typeOnly : Bool
  /-- The line of the statement. -/
  line : Nat
  deriving Repr, DecidableEq

/-- What is known about one source unit. -/
structure SourceFacts where
  /-- The names it exports at run time, in the order of the text. -/
  exportedNames : List String
  /-- The name behind the default export: `default` for one without a name. -/
  defaultExport : Option String
  /-- Its imports and exports from other modules, in the order of the text. -/
  importFacts : List ImportFact
  deriving Repr, DecidableEq

namespace ImportStatement

/-- Whether only types are imported: by the whole statement, or by every entry of it. -/
def importsTypesOnly (s : ImportStatement) : Bool :=
  s.typeOnly || (!s.specifiers.isEmpty && s.specifiers.all Specifier.typeOnly)

/-- The fact that an import states. -/
def fact (table : ResolutionTable) (s : ImportStatement) : ImportFact where
  path := s.source.path
  kind := table.kindOf s.source.path
  names := sortedNames s.boundNames
  typeOnly := s.importsTypesOnly
  line := s.span.start.line

end ImportStatement

namespace ExportStatement

/-- The names that come from the other module: everything for a whole module. -/
def importedNames (s : ExportStatement) : List String :=
  match s.form with
  | .everything .. => ["*"]
  | form => form.specifiers.map Specifier.imported

/-- The fact that an export from another module states. -/
def fact? (table : ResolutionTable) (s : ExportStatement) : Option ImportFact :=
  s.source.map fun source =>
    { path := source.path
      kind := table.kindOf source.path
      names := sortedNames s.importedNames
      typeOnly := s.typeOnly
      line := s.span.start.line }

/-- The name of the default export, if it has one of its own. -/
def ownDefaultName (s : ExportStatement) : Option String :=
  s.defaultExportName.filter fun name => !name.isEmpty && name != ExportForm.defaultWord

/-- The names that an export adds to those of its module. An entry of a clause that is renamed to
`default` adds its local name in its place; so does a default export with a name. -/
def addedNames (s : ExportStatement) : List String :=
  match s.form with
  | .list _ none _ =>
    (s.form.runtimeSpecifiers.map fun entry =>
      if entry.bound = ExportForm.defaultWord then entry.imported else entry.bound).filter
        (· != ExportForm.defaultWord)
  | _ => s.names ++ (if s.source.isNone then s.ownDefaultName.toList else [])

end ExportStatement

namespace Outline

/-- The exports that exist at run time. -/
def runtimeExports (o : Outline) : List ExportStatement := o.exports.filter fun s => !s.typeOnly

/-- The name behind the default export, the last one if there are several. -/
def defaultExport (o : Outline) : Option String :=
  (o.runtimeExports.filterMap ExportStatement.defaultExportName).getLast?.map fun name =>
    if name.isEmpty then ExportForm.defaultWord else name

/-- The names that exist at run time. A module with nothing but a default export without a name
exports that. -/
def exportedNames (o : Outline) : List String :=
  let names := firstOccurrences (o.runtimeExports.flatMap ExportStatement.addedNames)
  if names.isEmpty && o.defaultExport == some ExportForm.defaultWord then [ExportForm.defaultWord]
  else names

/-- Two lists of facts, each in the order of offsets, brought into one such list. -/
def mergeByOffset : List (Nat × ImportFact) → List (Nat × ImportFact) → List ImportFact
  | [], others => others.map Prod.snd
  | facts, [] => facts.map Prod.snd
  | (p, f) :: facts, (q, g) :: others =>
    if p ≤ q then f :: mergeByOffset facts ((q, g) :: others)
    else g :: mergeByOffset ((p, f) :: facts) others
  termination_by facts others => facts.length + others.length

/-- The modules that are needed, in the order of the text. -/
def importFacts (table : ResolutionTable) (o : Outline) : List ImportFact :=
  mergeByOffset (o.imports.map fun s => (s.span.start.offset, s.fact table))
    (o.exports.filterMap fun s => (s.fact? table).map fun f => (s.span.start.offset, f))

/-- All facts about a module. -/
def facts (table : ResolutionTable) (o : Outline) : SourceFacts where
  exportedNames := o.exportedNames
  defaultExport := o.defaultExport
  importFacts := o.importFacts table

end Outline

/-- The facts about a named source unit. -/
def analyzeSource (table : ResolutionTable) (source text : String) :
    Except SyntaxError SourceFacts :=
  (outlineOf source text).map (Outline.facts table)

end ComponentRegistry
