/-! # Lines

Cutting a text at line feeds, putting it together again, and reading any line ending as a line
feed.
-/

namespace ComponentRegistry.Lines

/-- Cut a text at every occurrence of a character. There is always one piece more than there are
occurrences. -/
def splitAt (separator : Char) : List Char → List (List Char)
  | [] => [[]]
  | c :: rest =>
    if c = separator then [] :: splitAt separator rest
    else
      match splitAt separator rest with
      | [] => [[c]]
      | piece :: pieces => (c :: piece) :: pieces

/-- The lines of a text. -/
def split (text : List Char) : List (List Char) := splitAt '\n' text

/-- The lines put one after the other with line feeds between them. -/
def join (lines : List (List Char)) : List Char := ['\n'].intercalate lines

/-- A text in which every line ends in a line feed: a carriage return, with the line feed that may
follow it, counts as one line ending. -/
def normalize : List Char → List Char
  | [] => []
  | '\r' :: '\n' :: rest => '\n' :: normalize rest
  | '\r' :: rest => '\n' :: normalize rest
  | c :: rest => c :: normalize rest

end ComponentRegistry.Lines
