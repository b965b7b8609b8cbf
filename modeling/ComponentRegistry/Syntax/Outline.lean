import ComponentRegistry.Syntax.Export
import ComponentRegistry.Syntax.Lexer

/-! # The outline of a module

The import and export statements at the top level of a source unit. Everything else is passed over
while brackets are counted, so that nested code is not taken for a statement.
-/

namespace ComponentRegistry

namespace Cursor

/-- Whether a statement may begin here: at the beginning, after a semicolon or a closing brace, or
on a new line that does not go on with a member access. -/
def atStatementStart (c : Cursor) : Bool :=
  match c.previous with
  | none => true
  | some p =>
    p.kind == .mark .semicolon || p.kind == .mark .closeBrace ||
      (p.line < c.current.line && p.kind != .mark .dot)

/-- Whether an import statement begins here, and not a call of `import` or a use of its
properties. -/
def startsImport (c : Cursor) : Bool :=
  c.atStatementStart && c.atWord .importWord && c.followingKind != .mark .openParen &&
    c.followingKind != .mark .dot

/-- Whether an export statement begins here. -/
def startsExport (c : Cursor) : Bool := c.atStatementStart && c.atWord .exportWord

/-- The statements from here on, inside of `depth` brackets. A closing bracket too many is passed
over. -/
def outlineFrom (depth : Nat) (c : Cursor) : Except Fault Outline :=
  if _done : c.kind = .endOfInput then .ok ⟨[], []⟩
  else if depth = 0 ∧ c.startsImport then
    match _statement : c.importStatement with
    | .error fault => .error fault
    | .ok (statement, next) =>
      (outlineFrom 0 next).map fun rest => { rest with imports := statement.toList ++ rest.imports }
  else if depth = 0 ∧ c.startsExport then
    match _statement : c.exportStatement with
    | .error fault => .error fault
    | .ok (statement, next) =>
      (outlineFrom 0 next).map fun rest => { rest with exports := statement :: rest.exports }
  else outlineFrom (Reach.depthAfter depth c.current) c.advance
termination_by c.remaining
decreasing_by
  · exact remaining_lt_of_importStatement _statement
  · exact remaining_lt_of_exportStatement _statement
  · exact remaining_advance_lt _done

end Cursor

/-- The import and export statements of a text. -/
def outline (text : List Char) : Except Fault Outline := do
  let stream ← tokenize text
  (Cursor.ofStream stream).outlineFrom 0

/-- The import and export statements of a named source unit. -/
def outlineOf (source text : String) : Except SyntaxError Outline :=
  (outline text.toList).mapError fun fault => ⟨source, text, fault⟩

end ComponentRegistry
