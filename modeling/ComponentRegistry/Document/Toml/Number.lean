import ComponentRegistry.Decimal.Binary64
import ComponentRegistry.Document.Parsed

/-! # Numbers of TOML documents

Whole numbers in four bases, and doubles, which are written with a fraction or an exponent.
Underscores may stand between digits.
-/

namespace ComponentRegistry.Toml

/-- Digits that may have single underscores in front of them, and what follows them. -/
def moreDigits (isDigit : Char → Bool) (text : List Char) : List Char × List Char :=
  match text with
  | '_' :: d :: rest =>
    if isDigit d then
      let (digits, after) := moreDigits isDigit rest
      (d :: digits, after)
    else ([], text)
  | d :: rest =>
    if isDigit d then
      let (digits, after) := moreDigits isDigit rest
      (d :: digits, after)
    else ([], text)
  | [] => ([], [])

/-- At least one digit, with single underscores between digits, and what follows. -/
def digits? (isDigit : Char → Bool) (text : List Char) : Option (List Char × List Char) :=
  match text with
  | d :: rest =>
    if isDigit d then
      let (digits, after) := moreDigits isDigit rest
      some (d :: digits, after)
    else none
  | [] => none

/-- The bases other than ten: the letter that tells them, the base, and its digits. -/
def bases : List (Char × Nat × (Char → Bool)) :=
  [('x', 16, fun c => (hexValue? c).isSome), ('b', 2, fun c => c == '0' || c == '1'),
    ('o', 8, fun c => '0' ≤ c && c ≤ '7')]

/-- A whole number in a base other than ten, and what follows. -/
def basedNumber? (text : List Char) : Option (Quantity × List Char) :=
  match text with
  | '0' :: letter :: rest => do
    let (_, base, isDigit) ← bases.find? fun (c, _) => c == letter
    let (digits, after) ← digits? isDigit rest
    pure (.whole (digitsValue base digits), after)
  | _ => none

/-- A sign, and what follows it. -/
def sign (text : List Char) : Bool × List Char :=
  match text with
  | '-' :: rest => (true, rest)
  | '+' :: rest => (false, rest)
  | _ => (false, text)

/-- The digits before the point. A zero stands alone. -/
def wholeDigits? (text : List Char) : Option (List Char × List Char) :=
  match text with
  | '0' :: rest => some (['0'], rest)
  | _ => digits? Char.isDigit text

/-- A point with digits after it, if there is one. -/
def fraction? (text : List Char) : Option (List Char × List Char) :=
  match text with
  | '.' :: rest => digits? Char.isDigit rest
  | _ => none

/-- An exponent, if there is one. -/
def exponent? (text : List Char) : Option (Int × List Char) :=
  match text with
  | e :: rest =>
    if e == 'e' || e == 'E' then
      let (negative, unsigned) := sign rest
      (digits? Char.isDigit unsigned).map fun (digits, after) =>
        let size : Int := decimalValue digits
        (if negative then -size else size, after)
    else none
  | [] => none

/-- A number in base ten, and what follows. -/
def decimalNumber? (text : List Char) : Option (Quantity × List Char) :=
  let (negative, unsigned) := sign text
  match wholeDigits? unsigned with
  | none => none
  | some (whole, rest) =>
    let fraction := fraction? rest
    let rest := (fraction.map Prod.snd).getD rest
    let exponent := exponent? rest
    let rest := (exponent.map Prod.snd).getD rest
    if fraction.isNone && exponent.isNone then
      let size : Int := decimalValue whole
      some (.whole (if negative then -size else size), rest)
    else
      let after := (fraction.map Prod.fst).getD []
      let power := (exponent.map Prod.fst).getD 0 - after.length
      some (.double (Binary64.ofDecimal negative (decimalValue (whole ++ after)) power), rest)

/-- Infinity or no number at all, with or without a sign, and what follows. -/
def specialNumber? (text : List Char) : Option (Quantity × List Char) :=
  let (negative, unsigned) := sign text
  match unsigned with
  | 'i' :: 'n' :: 'f' :: rest => some (.double (.infinite negative), rest)
  | 'n' :: 'a' :: 'n' :: rest => some (.double .nan, rest)
  | _ => none

/-- A number, and what follows. -/
def number? (text : List Char) : Option (Quantity × List Char) :=
  (basedNumber? text).or ((decimalNumber? text).or (specialNumber? text))

end ComponentRegistry.Toml
