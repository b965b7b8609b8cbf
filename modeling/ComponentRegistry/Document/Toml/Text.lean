import ComponentRegistry.Document.Parsed

/-! # Texts and keys of TOML documents

Comments, quoted texts and the names of values. A quoted text stands between one pair of quotes on
one line, or between three on several. Double quotes allow escapes, single ones do not.
-/

namespace ComponentRegistry.Toml

/-- Blanks within a line. -/
def isBlank (c : Char) : Bool := c == ' ' || c == '\t'

/-- Blanks and line ends. -/
def isFiller (c : Char) : Bool := isBlank c || c == '\n'

/-- Characters that cannot stand in a line as they are. -/
def isControl (c : Char) : Bool := (c.toNat < 32 && c != '\t') || c.toNat == 127

/-- Characters that cannot stand in a text of one or of several lines as they are. -/
def isForbidden (severalLines : Bool) (c : Char) : Bool :=
  isControl c && !(severalLines && c == '\n')

/-- A text without its leading blanks. -/
def skipBlanks (text : List Char) : List Char := text.dropWhile isBlank

/-- A text without the comment that it may begin with. -/
def skipComment? (text : List Char) : Option (List Char) :=
  match text with
  | '#' :: rest =>
    if (rest.takeWhile (· != '\n')).any isControl then none else some (rest.dropWhile (· != '\n'))
  | _ => some text

/-- A text without the blanks, line ends and comments that it begins with. -/
def skipFiller? (text : List Char) : Option (List Char) :=
  match text with
  | '#' :: rest =>
    if (rest.takeWhile (· != '\n')).any isControl then none
    else skipFiller? (rest.dropWhile (· != '\n'))
  | c :: rest => if isFiller c then skipFiller? rest else some (c :: rest)
  | [] => some []
termination_by text.length
decreasing_by
  · have := length_dropWhile_le (· != '\n') rest
    simp
    omega
  · simp

/-- The character that a short escape stands for. -/
def shortEscape? : Char → Option Char
  | 'b' => some '\x08'
  | 't' => some '\t'
  | 'n' => some '\n'
  | 'f' => some '\x0c'
  | 'r' => some '\r'
  | '"' => some '"'
  | '\\' => some '\\'
  | _ => none

/-- The character whose code point hexadecimal digits write. Halves of surrogate pairs are none. -/
def escapedChar? (digits : List Char) : Option Char :=
  if digits.all fun c => (hexValue? c).isSome then
    let code := digitsValue 16 digits
    if (0xD800 ≤ code ∧ code < 0xE000) ∨ 0x10FFFF < code then none else some (Char.ofNat code)
  else none

/-- What follows a line break that an escape takes back, together with all blanks and line ends
after it; the escape's character may be the first blank before the line break. -/
def afterJoin? (c : Char) (rest : List Char) : Option (List Char) :=
  if c == '\n' then some (rest.dropWhile isFiller)
  else
    match skipBlanks rest with
    | '\n' :: after => some (after.dropWhile isFiller)
    | _ => none

theorem length_lt_of_afterJoin? {c : Char} {rest after : List Char}
    (h : afterJoin? c rest = some after) : after.length < ('\\' :: c :: rest).length := by
  suffices after.length ≤ rest.length by
    simp only [List.length_cons]
    omega
  unfold afterJoin? at h
  split at h
  · cases h
    exact length_dropWhile_le ..
  · split at h
    · next line found =>
      cases h
      have le := length_dropWhile_le isBlank rest
      have := length_dropWhile_le isFiller line
      rw [show rest.dropWhile isBlank = '\n' :: line from found] at le
      simp only [List.length_cons] at le
      omega
    · cases h

/-- The rest of a text in double quotes, up to its closing quotes, and what follows them. -/
def basicTail? (severalLines : Bool) (text : List Char) : Option (List Char × List Char) :=
  match text with
  | [] => none
  | '"' :: '"' :: '"' :: rest => some ([], if severalLines then rest else '"' :: '"' :: rest)
  | '"' :: rest =>
    if severalLines then (basicTail? severalLines rest).map fun (s, after) => ('"' :: s, after)
    else some ([], rest)
  | '\\' :: 'u' :: a :: b :: c :: d :: rest => do
    let escaped ← escapedChar? [a, b, c, d]
    let (s, after) ← basicTail? severalLines rest
    pure (escaped :: s, after)
  | '\\' :: 'U' :: a :: b :: c :: d :: e :: f :: g :: h :: rest => do
    let escaped ← escapedChar? [a, b, c, d, e, f, g, h]
    let (s, after) ← basicTail? severalLines rest
    pure (escaped :: s, after)
  | '\\' :: c :: rest =>
    if severalLines && isFiller c then
      match _joined : afterJoin? c rest with
      | some after => basicTail? severalLines after
      | none => none
    else do
      let escaped ← shortEscape? c
      let (s, after) ← basicTail? severalLines rest
      pure (escaped :: s, after)
  | c :: rest =>
    if c == '\\' || isForbidden severalLines c then none
    else (basicTail? severalLines rest).map fun (s, after) => (c :: s, after)
termination_by text.length
decreasing_by
  all_goals
    first
    | exact length_lt_of_afterJoin? _joined
    | (simp only [List.length_cons]; omega)

/-- The rest of a text in single quotes on one line, and what follows its closing quote. -/
def literalTail? (text : List Char) : Option (List Char × List Char) :=
  match text with
  | [] => none
  | c :: rest =>
    if c == '\x27' then some ([], rest)
    else if isForbidden false c then none
    else (literalTail? rest).map fun (s, after) => (c :: s, after)

/-- The rest of a text in three single quotes, and what follows the first three of its closing
quotes. -/
def longLiteralTail? (text : List Char) : Option (List Char × List Char) :=
  match text with
  | '\x27' :: '\x27' :: '\x27' :: rest => some ([], rest)
  | c :: rest =>
    if isForbidden true c then none
    else (longLiteralTail? rest).map fun (s, after) => (c :: s, after)
  | [] => none

/-- Up to two more quotes after three closing ones belong to the text. -/
def takeMoreQuotes (quote : Char) (s rest : List Char) : List Char × List Char :=
  let more := (rest.take 2).takeWhile (· == quote)
  (s ++ more, rest.drop more.length)

/-- A line end right after three opening quotes does not count. -/
def skipFirstLineEnd : List Char → List Char
  | '\n' :: rest => rest
  | rest => rest

/-- A quoted text of any form, and what follows it. -/
def quotedText? (text : List Char) : Option (List Char × List Char) :=
  match text with
  | '"' :: '"' :: '"' :: rest =>
    (basicTail? true (skipFirstLineEnd rest)).map fun (s, after) => takeMoreQuotes '"' s after
  | '"' :: rest => basicTail? false rest
  | '\x27' :: '\x27' :: '\x27' :: rest =>
    (longLiteralTail? (skipFirstLineEnd rest)).map fun (s, after) => takeMoreQuotes '\x27' s after
  | '\x27' :: rest => literalTail? rest
  | _ => none

/-- Characters of a name without quotes. -/
def isBareKeyChar (c : Char) : Bool := c.isAlphanum || c == '-' || c == '_'

/-- One name, and what follows it. A quoted name stands on one line. -/
def keyPart? (text : List Char) : Option (List Char × List Char) :=
  match text with
  | '"' :: rest => basicTail? false rest
  | '\x27' :: rest => literalTail? rest
  | c :: rest =>
    if isBareKeyChar c then
      some (c :: rest.takeWhile isBareKeyChar, rest.dropWhile isBareKeyChar)
    else none
  | [] => none

/-- The names on the way to a value, outermost first. -/
abbrev Key := List String

/-- Names with points between them, and what follows them and the blanks after them. -/
def key? (text : List Char) : Option (Key × List Char) :=
  match keyPart? text with
  | none => none
  | some (name, rest) =>
    match skipBlanks rest with
    | '.' :: more =>
      if (skipBlanks more).length < text.length then
        (key? (skipBlanks more)).map fun (names, after) => (String.ofList name :: names, after)
      else none
    | after => some ([String.ofList name], after)
termination_by text.length

end ComponentRegistry.Toml
