/-! # Readings

What a reader takes off the front of a text. The rest is always shorter than the text, so reading
again and again comes to an end.
-/

namespace ComponentRegistry

/-- A value read off the front of a text, and the shorter text that follows. -/
structure Parsed (text : List Char) (α : Type) where
  value : α
  rest : List Char
  shorter : rest.length < text.length

/-- A rest that is shorter than a given text makes a reading of it. -/
def parsed? (text : List Char) (value : α) (rest : List Char) : Option (Parsed text α) :=
  if h : rest.length < text.length then some ⟨value, rest, h⟩ else none

theorem length_dropWhile_le (p : Char → Bool) (text : List Char) :
    (text.dropWhile p).length ≤ text.length := (List.dropWhile_sublist p).length_le

/-- The value of a hexadecimal digit. -/
def hexValue? (c : Char) : Option Nat :=
  if '0' ≤ c ∧ c ≤ '9' then some (c.toNat - '0'.toNat)
  else if 'a' ≤ c ∧ c ≤ 'f' then some (c.toNat - 'a'.toNat + 10)
  else if 'A' ≤ c ∧ c ≤ 'F' then some (c.toNat - 'A'.toNat + 10)
  else none

/-- The number that digits write in a base; digits beyond the base count for what they are. -/
def digitsValue (base : Nat) (digits : List Char) : Nat :=
  digits.foldl (fun n c => n * base + (hexValue? c).getD 0) 0

/-- The number that decimal digits write. -/
def decimalValue (digits : List Char) : Nat := digitsValue 10 digits

end ComponentRegistry
