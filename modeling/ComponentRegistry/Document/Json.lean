import ComponentRegistry.Document.Parsed
import ComponentRegistry.Document.Value

/-! # JSON documents

Reading a JSON document. Besides the standard grammar the reader takes `NaN` and the infinities as
numbers. A number is a double exactly when it is written with a fraction or an exponent.
-/

namespace ComponentRegistry.Json

/-- White space between the parts of a document. -/
def isSpace (c : Char) : Bool := c == ' ' || c == '\t' || c == '\n' || c == '\r'

/-- A text without its leading white space. -/
def skipSpace (text : List Char) : List Char := text.dropWhile isSpace

theorem length_skipSpace_le (text : List Char) : (skipSpace text).length ≤ text.length :=
  length_dropWhile_le ..

/-- The number that four hexadecimal digits write. -/
def hexCode? (a b c d : Char) : Option Nat := do
  let a ← hexValue? a
  let b ← hexValue? b
  let c ← hexValue? c
  let d ← hexValue? d
  pure (((a * 16 + b) * 16 + c) * 16 + d)

/-- The character of a code point; half of a surrogate pair on its own has none and is replaced. -/
def charOfCode (code : Nat) : Char :=
  if 0xD800 ≤ code ∧ code < 0xE000 then '\uFFFD' else Char.ofNat code

/-- The character that a short escape stands for. -/
def shortEscape? : Char → Option Char
  | '"' => some '"'
  | '\\' => some '\\'
  | '/' => some '/'
  | 'b' => some '\x08'
  | 'f' => some '\x0c'
  | 'n' => some '\n'
  | 'r' => some '\r'
  | 't' => some '\t'
  | _ => none

/-- A half of a surrogate pair: a high one from 0xD800 on, a low one from 0xDC00 on. -/
def isHalf (first code : Nat) : Bool := first ≤ code && code < first + 0x400

/-- The character that the two halves of a surrogate pair make. -/
def joinHalves (high low : Nat) : Char :=
  Char.ofNat (0x10000 + (high - 0xD800) * 0x400 + (low - 0xDC00))

/-- An escaped low half of a surrogate pair, and what follows. -/
def lowHalf? (text : List Char) : Option (Parsed text Nat) :=
  match text with
  | '\\' :: 'u' :: a :: b :: c :: d :: rest =>
    match hexCode? a b c d with
    | some code => if isHalf 0xDC00 code then some ⟨code, rest, by simp; omega⟩ else none
    | none => none
  | _ => none

/-- The character that an escape stands for, read after its backslash. Two escaped halves of a
surrogate pair are one character. -/
def escape? (text : List Char) : Option (Parsed text Char) :=
  match text with
  | 'u' :: a :: b :: c :: d :: rest =>
    match hexCode? a b c d with
    | none => none
    | some code =>
      match if isHalf 0xD800 code then lowHalf? rest else none with
      | some low =>
        some ⟨joinHalves code low.value, low.rest, by have := low.shorter; simp; omega⟩
      | none => some ⟨charOfCode code, rest, by simp; omega⟩
  | c :: rest => (shortEscape? c).map fun escaped => ⟨escaped, rest, Nat.lt_succ_self _⟩
  | [] => none

/-- The rest of a string after its opening quote. Control characters have to be escaped. -/
def stringTail (text : List Char) : Option (Parsed text (List Char)) :=
  match text with
  | [] => none
  | '"' :: rest => some ⟨[], rest, Nat.lt_succ_self _⟩
  | '\\' :: rest =>
    match escape? rest with
    | none => none
    | some escaped =>
      (stringTail escaped.rest).map fun p =>
        ⟨escaped.value :: p.value, p.rest,
          Nat.lt_succ_of_lt (Nat.lt_trans p.shorter escaped.shorter)⟩
  | c :: rest =>
    if c.toNat < 32 then none
    else
      (stringTail rest).map fun p => ⟨c :: p.value, p.rest, Nat.lt_succ_of_lt p.shorter⟩
termination_by text.length
decreasing_by
  · exact Nat.lt_succ_of_lt escaped.shorter
  · exact Nat.lt_succ_self _

/-- The digits of an integer part and what follows: a zero stands alone. -/
def integerPart : List Char → Option (List Char × List Char)
  | '0' :: rest => some (['0'], rest)
  | c :: rest =>
    if c.isDigit then some (c :: rest.takeWhile Char.isDigit, rest.dropWhile Char.isDigit) else none
  | [] => none

/-- The digits of a fraction and what follows; no digits when there is no fraction. -/
def fractionPart : List Char → List Char × List Char
  | '.' :: d :: rest =>
    if d.isDigit then (d :: rest.takeWhile Char.isDigit, rest.dropWhile Char.isDigit)
    else ([], '.' :: d :: rest)
  | rest => ([], rest)

/-- An exponent and what follows, when there is one. -/
def exponentPart : List Char → Option Int × List Char
  | e :: rest =>
    if e == 'e' || e == 'E' then
      let (negative, digits) :=
        match rest with
        | '-' :: digits => (true, digits)
        | '+' :: digits => (false, digits)
        | digits => (false, digits)
      let shown := digits.takeWhile Char.isDigit
      if shown.isEmpty then (none, e :: rest)
      else
        let size : Int := decimalValue shown
        (some (if negative then -size else size), digits.dropWhile Char.isDigit)
    else (none, e :: rest)
  | [] => (none, [])

/-- A number and what follows. -/
def number? (text : List Char) : Option (Quantity × List Char) :=
  let (negative, unsigned) :=
    match text with
    | '-' :: rest => (true, rest)
    | rest => (false, rest)
  match integerPart unsigned with
  | none => none
  | some (whole, afterWhole) =>
    let (fraction, afterFraction) := fractionPart afterWhole
    let (exponent, rest) := exponentPart afterFraction
    if fraction.isEmpty && exponent.isNone then
      let size : Int := decimalValue whole
      some (.whole (if negative then -size else size), rest)
    else
      let power := exponent.getD 0 - fraction.length
      some (.double (Binary64.ofDecimal negative (decimalValue (whole ++ fraction)) power), rest)

/-- The words that stand for values. -/
def words : List (List Char × Value) :=
  [("null".toList, .null), ("true".toList, .bool true), ("false".toList, .bool false),
    ("NaN".toList, .float .nan), ("Infinity".toList, .float (.infinite false)),
    ("-Infinity".toList, .float (.infinite true))]

/-- The value of the word that a text begins with, and what follows. -/
def word? (text : List Char) : Option (Value × List Char) :=
  words.findSome? fun (word, value) =>
    if word.isPrefixOf text then some (value, text.drop word.length) else none

mutual

/-- A value at the front of a text. -/
def value? (text : List Char) : Option (Parsed text Value) :=
  match text with
  | '"' :: rest =>
    (stringTail rest).map fun p =>
      ⟨.string (String.ofList p.value), p.rest, by have := p.shorter; simp; omega⟩
  | '[' :: rest =>
    match h : skipSpace rest with
    | ']' :: after =>
      some ⟨.list [], after, by
        have := length_skipSpace_le rest; simp [h] at this; simp; omega⟩
    | inside =>
      (elements? inside).map fun p =>
        ⟨.list p.value, p.rest, by
          have := length_skipSpace_le rest; have := p.shorter; simp [h] at *; omega⟩
  | '{' :: rest =>
    match h : skipSpace rest with
    | '}' :: after =>
      some ⟨.object [], after, by
        have := length_skipSpace_le rest; simp [h] at this; simp; omega⟩
    | inside =>
      (members? inside).map fun p =>
        ⟨.object (Value.fieldsOf p.value), p.rest, by
          have := length_skipSpace_le rest; have := p.shorter; simp [h] at *; omega⟩
  | other =>
    match word? other with
    | some (value, rest) => parsed? other value rest
    | none =>
      match number? other with
      | some (q, rest) => parsed? other (.number q) rest
      | none => none
termination_by (text.length, 0)
decreasing_by
  all_goals
    have le := length_skipSpace_le rest
    rw [h] at le
    exact Prod.Lex.left _ _ (Nat.lt_succ_of_le le)

/-- The elements of an array up to its closing bracket. -/
def elements? (text : List Char) : Option (Parsed text (List Value)) :=
  match value? text with
  | none => none
  | some first =>
    match h : skipSpace first.rest with
    | ']' :: rest =>
      some ⟨[first.value], rest, by
        have := length_skipSpace_le first.rest; have := first.shorter; simp [h] at *; omega⟩
    | ',' :: rest =>
      (elements? (skipSpace rest)).map fun p =>
        ⟨first.value :: p.value, p.rest, by
          have := length_skipSpace_le first.rest; have := length_skipSpace_le rest
          have := first.shorter; have := p.shorter; simp [h] at *; omega⟩
    | _ => none
termination_by (text.length, 1)
decreasing_by
  · exact Prod.Lex.right _ Nat.zero_lt_one
  · refine Prod.Lex.left _ _ ?_
    have le := length_skipSpace_le first.rest
    rw [h, List.length_cons] at le
    have := length_skipSpace_le rest
    have := first.shorter
    omega

/-- The members of an object up to its closing brace. -/
def members? (text : List Char) : Option (Parsed text (List (String × Value))) :=
  match text with
  | '"' :: afterQuote =>
    match stringTail afterQuote with
    | none => none
    | some name =>
      match h : skipSpace name.rest with
      | ':' :: afterColon =>
        match value? (skipSpace afterColon) with
        | none => none
        | some first =>
          let pair := (String.ofList name.value, first.value)
          match h' : skipSpace first.rest with
          | '}' :: rest =>
            some ⟨[pair], rest, by
              have := length_skipSpace_le name.rest; have := length_skipSpace_le afterColon
              have := length_skipSpace_le first.rest
              have := name.shorter; have := first.shorter; simp [h, h'] at *; omega⟩
          | ',' :: rest =>
            (members? (skipSpace rest)).map fun p =>
              ⟨pair :: p.value, p.rest, by
                have := length_skipSpace_le name.rest; have := length_skipSpace_le afterColon
                have := length_skipSpace_le first.rest; have := length_skipSpace_le rest
                have := name.shorter; have := first.shorter; have := p.shorter
                simp [h, h'] at *; omega⟩
          | _ => none
      | _ => none
  | _ => none
termination_by (text.length, 1)
decreasing_by
  · refine Prod.Lex.left _ _ ?_
    have le := length_skipSpace_le name.rest
    rw [h, List.length_cons] at le
    have := length_skipSpace_le afterColon
    have := name.shorter
    rw [List.length_cons]
    omega
  · refine Prod.Lex.left _ _ ?_
    have le := length_skipSpace_le name.rest
    rw [h, List.length_cons] at le
    have le' := length_skipSpace_le first.rest
    rw [h', List.length_cons] at le'
    have := length_skipSpace_le afterColon
    have := length_skipSpace_le rest
    have := name.shorter
    have := first.shorter
    rw [List.length_cons]
    omega

end

/-- The value of a whole document: one value with nothing but white space around it. A byte order
mark is not white space. -/
def parse? (text : List Char) : Option Value :=
  match value? (skipSpace text) with
  | some p => if (skipSpace p.rest).isEmpty then some p.value else none
  | none => none

end ComponentRegistry.Json
