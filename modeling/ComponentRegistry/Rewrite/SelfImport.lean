import ComponentRegistry.Distinct
import ComponentRegistry.Rewrite.AsyncExport

/-! # Imports of the component itself

A demo is stored next to its component, so it must not import the component's own names. Only the
matching entries of an import go; an import that loses all of its entries goes altogether, and
never becomes an import for its effects.
-/

namespace ComponentRegistry

/-- An entry of an import clause as it is written. Under a statement that imports types only, the
entry does not say so again. -/
def Specifier.clauseText (statementTypeOnly : Bool) (s : Specifier) : List Char :=
  (if s.typeOnly && !statementTypeOnly then "type ".toList else []) ++ s.imported.toList ++
    (if s.imported = s.bound then [] else " as ".toList ++ s.bound.toList)

/-- A default or namespace import as it is written; nothing for an entry of a clause. -/
def Specifier.outerText? (s : Specifier) : Option (List Char) :=
  if s.imported = "default" then some s.bound.toList
  else if s.imported = "*" then some ("* as ".toList ++ s.bound.toList)
  else none

/-- The bindings of an import as they are written: default and namespace first, then the clause. -/
def bindingsText (typeOnly : Bool) (specifiers : List Specifier) : List Char :=
  let outer := specifiers.filterMap Specifier.outerText?
  let inner := (specifiers.filter fun s => s.outerText?.isNone).map (Specifier.clauseText typeOnly)
  let clause :=
    if inner.isEmpty then []
    else ["\x7b ".toList ++ ", ".toList.intercalate inner ++ " \x7d".toList]
  ", ".toList.intercalate (outer ++ clause)

/-- An import as it is written, with certain entries. -/
def ImportStatement.render (s : ImportStatement) (specifiers : List Specifier) : List Char :=
  (if s.typeOnly then "import type ".toList else "import ".toList) ++
    bindingsText s.typeOnly specifiers ++ " from ".toList ++ s.source.written.toList ++
    (if s.terminated then [';'] else [])

/-- How far a removed statement reaches past its end: over the spaces and tabs after it and one line
ending. When something else follows on the line, it reaches no further than its end. -/
def lineRest (after : List Char) : Nat :=
  let blanks := (after.takeWhile isInlineBlank).length
  match after.drop blanks with
  | [] => blanks
  | '\r' :: '\n' :: _ => blanks + 2
  | '\n' :: _ => blanks + 1
  | _ => 0

namespace ImportStatement

/-- The entries of an import that do not bind one of some names. -/
def kept (names : List String) (s : ImportStatement) : List Specifier :=
  s.specifiers.filter fun entry => !names.contains entry.bound

/-- Whether an import binds one of some names. -/
def binds (names : List String) (s : ImportStatement) : Bool :=
  s.specifiers.any fun entry => names.contains entry.bound

/-- The edit that removes some names from an import. -/
def removalEdit (text : List Char) (names : List String) (s : ImportStatement) : Edit :=
  let kept := s.kept names
  if kept.isEmpty then
    ⟨s.span.start.offset, s.span.stop + lineRest (text.drop s.span.stop), []⟩
  else ⟨s.span.start.offset, s.span.stop, s.render kept⟩

end ImportStatement

/-- A text without certain imports, and where those came from. -/
structure SelfImportRemoval where
  /-- The text that is left. -/
  text : List Char
  /-- The paths of the imports that were touched, each once. -/
  removed : List String
  deriving Repr, DecidableEq

/-- Remove the imports that bind one of some names. -/
def Outline.removeImports (text : List Char) (names : List String) (o : Outline) :
    SelfImportRemoval :=
  let touched := o.imports.filter (ImportStatement.binds names)
  { text := Edit.applyAll text (touched.map (ImportStatement.removalEdit text names))
    removed := firstOccurrences (touched.map fun s => s.source.path) }

/-- Remove the imports that bind one of some names from a text. -/
def removeSelfImports (names : List String) (text : List Char) : Except Fault SelfImportRemoval :=
  (outline text).map (Outline.removeImports text names)

end ComponentRegistry
