/-! # Messages on the console

How a message looks on the console. Brackets there can switch styles, so a backslash in front of a
bracket that does not belong to a style tag is taken as an escape of the bracket.
-/

namespace ComponentRegistry.Console

/-- Control characters that would move the cursor; they are left out. -/
def movesCursor (c : Char) : Bool := [7, 8, 11, 12, 13].contains c.toNat

/-- The characters that a style tag can begin with. -/
def beginsTag (c : Char) : Bool := ('a' ≤ c && c ≤ 'z') || c == '#' || c == '/' || c == '@'

/-- Whether what follows an opening bracket makes it a style tag: it begins like one, and there is a
closing bracket before the next opening one. -/
def isTag (afterBracket : List Char) : Bool :=
  match afterBracket with
  | c :: rest => beginsTag c && (rest.find? fun d => d == '[' || d == ']') == some ']'
  | [] => false

/-- A message without the backslashes that escape brackets. -/
def unescape : List Char → List Char
  | '\\' :: '[' :: rest =>
    if isTag rest then '\\' :: '[' :: unescape rest else '[' :: unescape rest
  | c :: rest => c :: unescape rest
  | [] => []

/-- A message with tabs widened to stops at every eighth column. -/
def widenTabs (column : Nat) : List Char → List Char
  | [] => []
  | '\t' :: rest =>
    let width := 8 - column % 8
    List.replicate width ' ' ++ widenTabs (column + width) rest
  | '\n' :: rest => '\n' :: widenTabs 0 rest
  | c :: rest => c :: widenTabs (column + 1) rest

/-- A message as it looks on the console, with a line end after it. -/
def shown (message : String) : String :=
  String.ofList
    (widenTabs 0 ((unescape message.toList).filter fun c => !movesCursor c) ++ ['\n'])

end ComponentRegistry.Console
