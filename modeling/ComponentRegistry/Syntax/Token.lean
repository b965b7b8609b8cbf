import ComponentRegistry.Text.Position

/-! # Tokens

The words of a source unit. Only what is needed to find the import and export statements of a
module is told apart; every other operator is one character with one kind.
-/

namespace ComponentRegistry

/-- Words with a meaning in import and export statements. Each may also stand as a plain name. -/
inductive Keyword where
  | importWord
  | exportWord
  | fromWord
  | asWord
  | defaultWord
  | functionWord
  | classWord
  | constWord
  | letWord
  | varWord
  | asyncWord
  | typeWord
  | interfaceWord
  | enumWord
  | declareWord
  | abstractWord
  deriving Repr, DecidableEq

namespace Keyword

/-- The spelling of a keyword. -/
def spelling : Keyword → String
  | importWord => "import"
  | exportWord => "export"
  | fromWord => "from"
  | asWord => "as"
  | defaultWord => "default"
  | functionWord => "function"
  | classWord => "class"
  | constWord => "const"
  | letWord => "let"
  | varWord => "var"
  | asyncWord => "async"
  | typeWord => "type"
  | interfaceWord => "interface"
  | enumWord => "enum"
  | declareWord => "declare"
  | abstractWord => "abstract"

/-- Every keyword once. -/
def all : List Keyword :=
  [importWord, exportWord, fromWord, asWord, defaultWord, functionWord, classWord, constWord,
    letWord, varWord, asyncWord, typeWord, interfaceWord, enumWord, declareWord, abstractWord]

/-- The keyword with a spelling. -/
def ofSpelling? (word : String) : Option Keyword := all.find? fun k => k.spelling == word

end Keyword

/-- Punctuation that the statement grammar mentions. -/
inductive Mark where
  | openBrace
  | closeBrace
  | openParen
  | closeParen
  | openBracket
  | closeBracket
  | comma
  | semicolon
  | colon
  | dot
  | ellipsis
  | star
  | equals
  | arrow
  | less
  | greater
  | slash
  deriving Repr, DecidableEq

namespace Mark

/-- The spelling of a punctuation mark. -/
def spelling : Mark → String
  | openBrace => "\x7b"
  | closeBrace => "\x7d"
  | openParen => "("
  | closeParen => ")"
  | openBracket => "["
  | closeBracket => "]"
  | comma => ","
  | semicolon => ";"
  | colon => ":"
  | dot => "."
  | ellipsis => "..."
  | star => "*"
  | equals => "="
  | arrow => "=>"
  | less => "<"
  | greater => ">"
  | slash => "/"

/-- The marks that are one character and begin no longer token. -/
def ofChar? : Char → Option Mark
  | '(' => some openParen
  | ')' => some closeParen
  | '[' => some openBracket
  | ']' => some closeBracket
  | ',' => some comma
  | ';' => some semicolon
  | ':' => some colon
  | '*' => some star
  | '<' => some less
  | '>' => some greater
  | _ => none

end Mark

/-- What sort of word a token is. -/
inductive TokenKind where
  /-- A name that is no keyword. -/
  | identifier
  /-- A closed quotation on one line. -/
  | string
  /-- A stretch of template text, up to its end or to an embedded expression. -/
  | template
  /-- A regular expression with its flags. -/
  | regex
  /-- A numeral in any notation. -/
  | number
  /-- One of the words of import and export statements. -/
  | keyword (word : Keyword)
  /-- Punctuation of the statement grammar. -/
  | mark (mark : Mark)
  /-- Any other single character. -/
  | operator
  /-- The end of the text. -/
  | endOfInput
  deriving Repr, DecidableEq

namespace TokenKind

/-- The name of a kind in messages and listings. Keywords and marks go by their spelling. -/
def name : TokenKind → String
  | identifier => "IDENTIFIER"
  | string => "STRING"
  | template => "TEMPLATE"
  | regex => "REGEX"
  | number => "NUMBER"
  | keyword word => word.spelling
  | mark m => m.spelling
  | operator => "OPERATOR"
  | endOfInput => "EOF"

/-- Kinds that may stand as the name of a binding or a property. -/
def isName : TokenKind → Bool
  | identifier | keyword _ => true
  | _ => false

/-- The three opening brackets. -/
def isOpener : TokenKind → Bool
  | mark .openBrace | mark .openParen | mark .openBracket => true
  | _ => false

/-- The three closing brackets. -/
def isCloser : TokenKind → Bool
  | mark .closeBrace | mark .closeParen | mark .closeBracket => true
  | _ => false

/-- Kinds after which an expression may be complete, so that a line break can end it. -/
def endsExpression : TokenKind → Bool
  | string | number | template | regex => true
  | kind => kind.isName || kind.isCloser

end TokenKind

/-- A word of a source unit and where it stands. -/
structure Token where
  /-- What sort of word it is. -/
  kind : TokenKind
  /-- What it says: for a string the quoted text with its escapes read, for a template the text
  between the delimiters, else the characters themselves. -/
  value : String
  /-- Its characters, as they stand in the text. -/
  lexeme : String
  /-- Where it begins. -/
  start : Position
  deriving Repr, DecidableEq

namespace Token

/-- The line on which a token begins. -/
def line (t : Token) : Nat := t.start.line

/-- The offset just past a token. -/
def stop (t : Token) : Nat := t.start.offset + t.lexeme.length

/-- The token that stands for the end of the text. -/
def endOfInput (p : Position) : Token := ⟨.endOfInput, "", "", p⟩

end Token

/-- The tokens of a text in order, and the end of the text after them. -/
structure TokenStream where
  /-- The words of the text. -/
  tokens : List Token
  /-- Where the text ends. -/
  finish : Position
  deriving Repr, DecidableEq

namespace TokenStream

/-- All tokens, with the end of the text last. -/
def toList (s : TokenStream) : List Token := s.tokens ++ [Token.endOfInput s.finish]

/-- One more token in front. -/
def cons (t : Token) (s : TokenStream) : TokenStream := ⟨t :: s.tokens, s.finish⟩

end TokenStream

end ComponentRegistry
