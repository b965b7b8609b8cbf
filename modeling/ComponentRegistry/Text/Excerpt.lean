import ComponentRegistry.Text.Lines

/-! # Excerpts of a text

The lines around a place in a text, numbered, with a marker under the place.
-/

namespace ComponentRegistry.Excerpt

/-- How many lines are shown on either side of the marked one. -/
def radius : Int := 2

/-- A list up to a position that may count from its end when it is negative. -/
def upTo (stop : Int) (lines : List α) : List α :=
  if stop < 0 then lines.take (lines.length - stop.natAbs) else lines.take stop.toNat

/-- Number of the first line that is shown. -/
def firstLine (line : Int) : Nat := (max 1 (line - radius)).toNat

/-- The lines of a text near a line. -/
def near (text : List Char) (line : Int) : List (List Char) :=
  let lines := Lines.split text
  (upTo (min lines.length (line + radius)) lines).drop (firstLine line - 1)

/-- A line number, right-aligned in four columns, and the bar after it. -/
def label (number : Nat) : List Char :=
  let digits := (toString number).toList
  List.replicate (4 - digits.length) ' ' ++ digits ++ [' ', '|', ' ']

/-- The marker, placed under a column of the line above it. -/
def marker (number : Nat) (column : Int) : List Char :=
  List.replicate (((label number).length : Int) + column - 1).toNat ' ' ++ ['^', '^', '^']

/-- The numbered lines from `number` on, with the marker after the marked line. -/
def numbered (line column : Int) : (number : Nat) → List (List Char) → List (List Char)
  | _, [] => []
  | number, content :: rest =>
    let shown := label number ++ content
    let below := numbered line column (number + 1) rest
    if (number : Int) = line then shown :: marker number column :: below else shown :: below

/-- The excerpt around a place, or nothing when the lines near it hold no text at all. -/
def render (text : List Char) (line column : Int) : Option (List Char) :=
  let lines := near text line
  if (Lines.join lines).isEmpty then none
  else some (Lines.join (numbered line column (firstLine line) lines))

/-- A place in a named source: its name, line and column. -/
def location (source : String) (line column : Int) : String :=
  source ++ ":" ++ toString line ++ ":" ++ toString column

/-- A message about a place: the location, the excerpt when there is a text to show, and the
message itself, on lines of their own. -/
def describe (source : String) (line column : Int) (text : Option String) (message : String) :
    String :=
  match text.bind fun content => render content.toList line column with
  | some excerpt =>
    location source line column ++ "\n" ++ String.ofList excerpt ++ "\n" ++ message
  | none => location source line column ++ "\n" ++ message

end ComponentRegistry.Excerpt
