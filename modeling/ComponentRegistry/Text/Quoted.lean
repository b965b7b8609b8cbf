import ComponentRegistry.Text.CharacterClass

/-! # Quoted text

How a piece of source text is shown inside a message: between quotes, on one line, with every
character that has no glyph written as an escape.
-/

namespace ComponentRegistry.Quoted

/-- Single quotes, unless the text has a single quote and no double quote. -/
def quoteFor (text : List Char) : Char :=
  if text.contains '\x27' && !text.contains '"' then '"' else '\x27'

/-- The last `width` hexadecimal digits of a code point, in lower case. -/
def hexDigits : (width : Nat) → (code : Nat) → List Char
  | 0, _ => []
  | width + 1, code => hexDigits width (code / 16) ++ [Nat.digitChar (code % 16)]

/-- A character as it stands between the quotes. The escape of a character without a glyph has two,
four or eight digits, the fewest that hold its code point. -/
def escape (quote c : Char) : List Char :=
  if c = quote ∨ c = '\\' then ['\\', c]
  else if c = '\n' then ['\\', 'n']
  else if c = '\r' then ['\\', 'r']
  else if c = '\t' then ['\\', 't']
  else if CharacterClass.isPrintable c then [c]
  else if c.toNat < 256 then '\\' :: 'x' :: hexDigits 2 c.toNat
  else if c.toNat < 65536 then '\\' :: 'u' :: hexDigits 4 c.toNat
  else '\\' :: 'U' :: hexDigits 8 c.toNat

/-- The quoted form of a text. -/
def encode (text : List Char) : List Char :=
  let quote := quoteFor text
  quote :: text.flatMap (escape quote) ++ [quote]

end ComponentRegistry.Quoted

namespace ComponentRegistry

/-- The quoted form of a string. -/
def quoted (text : String) : String :=
  String.ofList (Quoted.encode text.toList)

end ComponentRegistry
