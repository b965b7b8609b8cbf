import ComponentRegistry.Syntax.Token
import ComponentRegistry.Text.Excerpt
import ComponentRegistry.Text.Quoted

/-! # Syntax faults

Why a text is not a readable source unit, and where. The wording of every cause stands in one
place.
-/

namespace ComponentRegistry

/-- Why a text cannot be read. `found` is the token that stands where another was wanted. -/
inductive FaultCause where
  /-- A block comment is never closed. -/
  | unterminatedComment
  /-- A template is never closed. -/
  | unterminatedTemplate
  /-- A closing brace has no opening brace. -/
  | unexpectedCloseBrace
  /-- An opening brace has no closing brace. -/
  | unclosedBrace
  /-- A token of a certain kind is missing. -/
  | expected (kind : TokenKind) (found : Token)
  /-- A name is missing. -/
  | expectedName (found : Token)
  /-- A default import and a comma are followed by neither a clause nor a namespace. -/
  | expectedClause
  /-- Nothing after `import` can begin an import. -/
  | malformedImport
  /-- Two entries of a clause are not separated. -/
  | expectedClauseSeparator (found : Token)
  /-- A computed property of a pattern binds nothing. -/
  | unboundComputedProperty
  /-- Two members of an object pattern are not separated. -/
  | expectedMemberSeparator
  /-- Two elements of an array pattern are not separated. -/
  | expectedElementSeparator
  /-- Nothing after `export` can begin an export. -/
  | unsupportedExport (found : Token)
  deriving Repr, DecidableEq

namespace FaultCause

/-- How a token is shown when another was wanted. -/
def shown (found : Token) : String :=
  if found.kind = .endOfInput then "end of input" else quoted found.value

/-- The wording of a cause. -/
def message : FaultCause → String
  | unterminatedComment => "Unterminated block comment"
  | unterminatedTemplate => "Unterminated template literal"
  | unexpectedCloseBrace => "Unexpected '\x7d'"
  | unclosedBrace => "Unclosed '\x7b'"
  | expected kind found => "Expected " ++ quoted kind.name ++ ", got " ++ shown found
  | expectedName found => "Expected identifier, got " ++ shown found
  | expectedClause => "Expected '\x7b' or '*' after default import"
  | malformedImport => "Malformed import statement"
  | expectedClauseSeparator found =>
    "Expected ',' or '\x7d' in import/export clause, got " ++ shown found
  | unboundComputedProperty => "Computed property in a pattern needs a binding"
  | expectedMemberSeparator => "Expected ',' or '\x7d' in destructuring pattern"
  | expectedElementSeparator => "Expected ',' or ']' in destructuring pattern"
  | unsupportedExport found => "Unsupported export statement near " ++ shown found

end FaultCause

/-- A cause and the place it is reported at. -/
structure Fault where
  /-- Why the text cannot be read. -/
  cause : FaultCause
  /-- Where that shows. -/
  place : Position
  deriving Repr, DecidableEq

/-- A fault in a source unit of a certain name. -/
structure SyntaxError where
  /-- Name of the source unit. -/
  source : String
  /-- The text of the source unit. -/
  text : String
  /-- The fault. -/
  fault : Fault
  deriving Repr, DecidableEq

/-- The full message: the place, the lines around it, and the cause. -/
def SyntaxError.message (e : SyntaxError) : String :=
  Excerpt.describe e.source e.fault.place.line e.fault.place.column (some e.text)
    e.fault.cause.message

end ComponentRegistry
