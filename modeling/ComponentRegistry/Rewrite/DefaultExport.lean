import ComponentRegistry.Rewrite.Edit
import ComponentRegistry.Source.Facts
import ComponentRegistry.Text.Blank

/-! # Default exports by name

Making the default export of a component importable by its name as well. A lone name becomes a
clause that lists it twice; a declaration loses the word `default`, and the default export is stated
again at the end of the text; a clause that only renames to `default` gets a second clause.
-/

namespace ComponentRegistry

/-- What has to change for a default export to be importable by name. -/
inductive DefaultExportChange where
  /-- Replace a stretch of the text. -/
  | edit (e : Edit)
  /-- Replace a stretch of the text, and state something more at its end. -/
  | editAndState (e : Edit) (statement : List Char)
  /-- State something more at the end of the text. -/
  | state (statement : List Char)
  deriving Repr, DecidableEq

namespace DefaultExportChange

/-- The edit of a change. -/
def edit? : DefaultExportChange → Option Edit
  | edit e | editAndState e _ => some e
  | state _ => none

/-- What a change states at the end of the text. -/
def statement? : DefaultExportChange → Option (List Char)
  | edit _ => none
  | editAndState _ statement | state statement => some statement

end DefaultExportChange

/-- A clause that exports a name under itself and as the default. -/
def bothNamesClause (name : String) : List Char :=
  "export \x7b ".toList ++ name.toList ++ ", ".toList ++ name.toList ++ " as default \x7d;".toList

/-- A statement that exports a name as the default. -/
def defaultNameStatement (name : String) : List Char :=
  "export default ".toList ++ name.toList ++ ";".toList

/-- A clause that exports a name. -/
def nameClause (name : String) : List Char :=
  "export \x7b ".toList ++ name.toList ++ " \x7d;".toList

/-- The change that a statement with a default export of a certain name calls for. -/
def ExportStatement.defaultChange (s : ExportStatement) (name : String) :
    Option DefaultExportChange :=
  match s.form with
  | .defaultName .. => some (.edit ⟨s.span.start.offset, s.span.stop, bothNamesClause name⟩)
  | .defaultDeclaration _ default async keyword _ =>
    some (.editAndState ⟨default.start.offset, (async.getD keyword).start.offset, []⟩
      (defaultNameStatement name))
  | .list .. => some (.state (nameClause name))
  | _ => none

/-- The name of a default export that is not importable by name yet. Exports from other modules are
left alone. -/
def ExportStatement.unnamedDefault (s : ExportStatement) (named : List String) : Option String :=
  if s.source.isSome then none else s.ownDefaultName.filter fun name => !named.contains name

namespace Outline

/-- The changes that the default exports of a module call for. -/
def defaultExportChanges (o : Outline) : List DefaultExportChange :=
  let named := o.runtimeExports.flatMap ExportStatement.names
  o.exports.filterMap fun s => (s.unnamedDefault named).bind s.defaultChange

/-- The edits that make the default exports of a module importable by name. -/
def defaultExportEdits (o : Outline) : List Edit :=
  o.defaultExportChanges.filterMap DefaultExportChange.edit?

/-- What is stated at the end of the text for that, the last statement if there are several. -/
def defaultExportTrailer (o : Outline) : Option (List Char) :=
  (o.defaultExportChanges.filterMap DefaultExportChange.statement?).getLast?

end Outline

/-- A text without the line feeds at its end. -/
def dropFinalLineFeeds (text : List Char) : List Char := dropTrailing (· == '\n') text

/-- A statement put at the end of a text, after an empty line. -/
def withTrailer (text : List Char) (trailer : Option (List Char)) : List Char :=
  match trailer with
  | none => text
  | some statement => dropFinalLineFeeds text ++ '\n' :: '\n' :: statement ++ ['\n']

/-- A text whose default export can be imported by name. -/
def nameDefaultExport (text : List Char) : Except Fault (List Char) :=
  (outline text).map fun o =>
    withTrailer (Edit.applyAll text o.defaultExportEdits) o.defaultExportTrailer

/-- A parenthesis in the text of an element hides the statement at the end. -/
theorem nameDefaultExport_markup :
    let text := "export default function F() \x7b return <p>:(</p> \x7d".toList
    let left := "export function F() \x7b return <p>:(</p> \x7d\n\nexport default F;\n".toList
    (nameDefaultExport text).toOption = some left ∧
      (outline text).toOption.map Outline.defaultExport = some (some "F") ∧
      (outline left).toOption.map Outline.defaultExport = some none := by
  intro text left
  decide +kernel

/-- A statement at the end that is hidden in this way is stated again. -/
theorem nameDefaultExport_again :
    let text := "export \x7b F as default \x7d;\nfunction F() \x7b return <p>:(</p> \x7d".toList
    let statement := "\nexport \x7b F \x7d;\n".toList
    (nameDefaultExport text).toOption = some (text ++ '\n' :: statement) ∧
      (nameDefaultExport (text ++ '\n' :: statement)).toOption =
        some (text ++ '\n' :: statement ++ statement) := by
  intro text statement
  decide +kernel

end ComponentRegistry
