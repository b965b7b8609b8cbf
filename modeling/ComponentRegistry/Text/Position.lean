/-! # Positions in a text

A position is counted in characters. Only a line feed ends a line, so a carriage return takes a
column like any other character.
-/

namespace ComponentRegistry

/-- A place in a text: the characters before it, its line and its column, both counted from one. -/
structure Position where
  /-- Number of characters before the place. -/
  offset : Nat
  /-- Line of the place. -/
  line : Nat
  /-- Column of the place. -/
  column : Nat
  deriving Repr, DecidableEq, Inhabited

namespace Position

/-- The beginning of every text. -/
def start : Position := ⟨0, 1, 1⟩

/-- The place just after one character. -/
def after (p : Position) (c : Char) : Position :=
  if c = '\n' then ⟨p.offset + 1, p.line + 1, 1⟩ else ⟨p.offset + 1, p.line, p.column + 1⟩

/-- The place just after a run of characters. -/
def advance (p : Position) (passed : List Char) : Position :=
  passed.foldl after p

@[simp] theorem advance_nil (p : Position) : p.advance [] = p := rfl

@[simp] theorem advance_cons (p : Position) (c : Char) (passed : List Char) :
    p.advance (c :: passed) = (p.after c).advance passed := rfl

theorem advance_append (p : Position) (front back : List Char) :
    p.advance (front ++ back) = (p.advance front).advance back := by
  simp [advance]

theorem offset_after (p : Position) (c : Char) : (p.after c).offset = p.offset + 1 := by
  unfold after
  split <;> rfl

theorem offset_advance (p : Position) (passed : List Char) :
    (p.advance passed).offset = p.offset + passed.length := by
  induction passed generalizing p with
  | nil => simp
  | cons c passed ih =>
    simp only [advance_cons, ih, offset_after, List.length_cons]
    omega

end Position

end ComponentRegistry
