/-! # Edits

Replacing stretches of a text. Edits are made from the back to the front, so that the offsets of
those still to be made stay valid.
-/

namespace ComponentRegistry

/-- A stretch of a text and what replaces it. -/
structure Edit where
  /-- Offset of the first replaced character. -/
  start : Nat
  /-- Offset just past the last replaced character. -/
  stop : Nat
  /-- What is put there. -/
  replacement : List Char
  deriving Repr, DecidableEq

namespace Edit

/-- Make one edit. Offsets past the end of the text mean its end. -/
def apply (text : List Char) (e : Edit) : List Char :=
  text.take e.start ++ e.replacement ++ text.drop e.stop

/-- Put an edit in front of those that do not start after it. -/
def place (e : Edit) : List Edit → List Edit
  | [] => [e]
  | f :: rest => if f.start ≤ e.start then e :: f :: rest else f :: place e rest

/-- Edits by falling start; those with the same start keep their order. -/
def backToFront (edits : List Edit) : List Edit := edits.foldr place []

/-- Make all edits. -/
def applyAll (text : List Char) (edits : List Edit) : List Char :=
  (backToFront edits).foldl apply text

end Edit

end ComponentRegistry
