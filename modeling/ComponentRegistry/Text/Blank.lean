import ComponentRegistry.Text.CharacterClass

/-! # Blank text

Trimming white space off a text, in the widest sense of white space.
-/

namespace ComponentRegistry

/-- Drop every trailing character of a class. -/
def dropTrailing (p : Char → Bool) (text : List Char) : List Char :=
  (text.reverse.dropWhile p).reverse

/-- A text without the blanks at both ends. -/
def trimChars (text : List Char) : List Char :=
  dropTrailing CharacterClass.isBlank (text.dropWhile CharacterClass.isBlank)

/-- A string without the blanks at both ends. -/
def trimmed (text : String) : String := String.ofList (trimChars text.toList)

/-- Whether a string has nothing but blanks. -/
def isBlankText (text : String) : Bool := text.toList.all CharacterClass.isBlank

end ComponentRegistry
