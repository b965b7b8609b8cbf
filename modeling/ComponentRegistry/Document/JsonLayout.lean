import ComponentRegistry.Document.Value

/-! # Written JSON documents

Writing a document as JSON: over several lines for people, or on one line for storage. Everything
outside printable ASCII is written as an escape.
-/

namespace ComponentRegistry.JsonLayout

/-- The escape of a 16-bit unit. -/
def unitEscape (code : Nat) : List Char := '\\' :: 'u' :: Quoted.hexDigits 4 code

/-- A character as it stands in a JSON text. A character beyond 16 bits is written as the two halves
of its surrogate pair. -/
def escape (c : Char) : List Char :=
  if c = '"' then ['\\', '"']
  else if c = '\\' then ['\\', '\\']
  else if c = '\n' then ['\\', 'n']
  else if c = '\r' then ['\\', 'r']
  else if c = '\t' then ['\\', 't']
  else if c = '\x08' then ['\\', 'b']
  else if c = '\x0c' then ['\\', 'f']
  else if 32 ≤ c.toNat ∧ c.toNat < 127 then [c]
  else if c.toNat < 0x10000 then unitEscape c.toNat
  else
    let above := c.toNat - 0x10000
    unitEscape (0xD800 + above / 1024) ++ unitEscape (0xDC00 + above % 1024)

/-- A JSON text. -/
def string (s : String) : String := String.ofList ('"' :: s.toList.flatMap escape ++ ['"'])

/-- How the parts of a list or an object are set apart. -/
structure Style where
  /-- What stands in front of each part, given how deep it lies. -/
  lead : Nat → String
  /-- What stands after a comma. -/
  gap : String
  /-- What stands between a name and its value. -/
  colon : String

/-- Every part on a line of its own, two columns further in than what it is part of. -/
def indented : Style := ⟨fun depth => "\n" ++ "".pushn ' ' (2 * depth), "", ": "⟩

/-- Everything on one line. -/
def compact : Style := ⟨fun _ => "", "", ":"⟩

/-- Parts between brackets; without parts the brackets stand together. -/
def enclose (style : Style) (depth : Nat) (left right : String) (parts : List String) : String :=
  if parts.isEmpty then left ++ right
  else
    left ++ style.lead (depth + 1) ++
      (("," ++ style.gap ++ style.lead (depth + 1)).intercalate parts) ++ style.lead depth ++ right

mutual

/-- A value that lies at a depth. -/
def value (style : Style) (depth : Nat) : Value → String
  | .null => "null"
  | .bool b => if b then "true" else "false"
  | .number q => q.text
  | .string s => string s
  | .moment written => string written
  | .list items => enclose style depth "[" "]" (values style (depth + 1) items)
  | .object fields => enclose style depth "\x7b" "\x7d" (members style (depth + 1) fields)

/-- The items of a list. -/
def values (style : Style) (depth : Nat) : List Value → List String
  | [] => []
  | v :: rest => value style depth v :: values style depth rest

/-- The members of an object. -/
def members (style : Style) (depth : Nat) : List (String × Value) → List String
  | [] => []
  | (name, v) :: rest =>
    (string name ++ style.colon ++ value style depth v) :: members style depth rest

end

/-- A document over several lines. -/
def lines (v : Value) : String := value indented 0 v

/-- A document on one line. -/
def line (v : Value) : String := value compact 0 v

end ComponentRegistry.JsonLayout
