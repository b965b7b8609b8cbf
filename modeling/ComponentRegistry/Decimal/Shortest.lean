import ComponentRegistry.Decimal.Binary64

/-! # Shortest decimals

The decimal with the fewest digits that still reads back as a given double, and how it is written:
positionally for moderate magnitudes, with an exponent otherwise.
-/

namespace ComponentRegistry.Shortest

/-- A positive number with its rounding interval, in units of two to `power`: `value` stands for the
number, and a decimal reads back as it exactly when it lies between `low` and `high`, the ends
included when the significand is even. -/
structure Interval where
  value : Nat
  low : Nat
  high : Nat
  power : Int
  endsIncluded : Bool

/-- The rounding interval of a positive finite double. Below a power of two the neighbour is half
as far away as above it. -/
def intervalOf (significand : Nat) (exponent : Int) : Interval where
  value := 4 * significand
  low :=
    if significand = powerOfTwo 52 ∧ Binary64.leastExponent < exponent then 4 * significand - 1
    else 4 * significand - 2
  high := 4 * significand + 2
  power := exponent - 2
  endsIncluded := significand % 2 = 0

/-- A decimal: its digits as a number, times ten to a power. -/
structure Decimal where
  digits : Nat
  power : Int
  deriving Repr, DecidableEq

/-- The factor that brings multiples of ten to `tens` and of two to `twos` to whole numbers of the
same unit: one for each side. -/
def factors (tens twos : Int) : Nat × Nat :=
  (powerOfTen tens.toNat * powerOfTwo (-twos).toNat,
    powerOfTwo twos.toNat * powerOfTen (-tens).toNat)

/-- Whether `digits` times the decimal factor lies in the rounding interval. -/
def Interval.contains (i : Interval) (decimalFactor binaryFactor digits : Nat) : Bool :=
  let point := digits * decimalFactor
  let low := i.low * binaryFactor
  let high := i.high * binaryFactor
  if i.endsIncluded then low ≤ point && point ≤ high else low < point && point < high

/-- The nearest point of a decimal grid that reads back as the number, if any of its two neighbours
on the grid does. Of two equally near ones the even one is taken. -/
def Interval.onGrid (i : Interval) (tens : Int) : Option Decimal :=
  let (decimalFactor, binaryFactor) := factors tens i.power
  let exact := i.value * binaryFactor
  let down := exact / decimalFactor
  let fits := i.contains decimalFactor binaryFactor
  let nearestIsDown :=
    let twice := 2 * (exact % decimalFactor)
    twice < decimalFactor || (twice = decimalFactor && down % 2 = 0)
  if fits down && fits (down + 1) then some ⟨if nearestIsDown then down else down + 1, tens⟩
  else if fits down then some ⟨down, tens⟩
  else if fits (down + 1) then some ⟨down + 1, tens⟩
  else none

/-- How many digits a positive number has before the decimal point; zero or less for a number below
one tenth. -/
def integerDigits (value : Nat) (power : Int) : Int :=
  let (n, d) := Binary64.shiftRatio value 1 power
  let guess : Int := ((toString n).length : Int) - (toString d).length
  let reached :=
    if 0 ≤ guess then d * powerOfTen guess.toNat ≤ n else d ≤ n * powerOfTen guess.natAbs
  if reached then guess + 1 else guess

/-- Try grids of more and more digits. Seventeen digits always suffice. -/
def Interval.search (i : Interval) (whole : Int) : (remaining : Nat) → Decimal
  | 0 => ⟨0, 0⟩
  | remaining + 1 =>
    let digits : Int := 17 - remaining
    (i.onGrid (whole - digits)).getD (i.search whole remaining)

/-- The shortest decimal that reads back as a positive finite double. -/
def ofFinite (significand : Nat) (exponent : Int) : Decimal :=
  let i := intervalOf significand exponent
  i.search (integerDigits i.value i.power) 17

/-- Decimal digits without the zeros at their end. -/
def significantDigits (digits : Nat) : List Char :=
  dropZeros (toString digits).toList
where
  /-- Drop the trailing zeros. -/
  dropZeros (cs : List Char) : List Char := (cs.reverse.dropWhile (· == '0')).reverse

/-- The range of magnitudes that are written without an exponent: the least and the first excluded
power of ten of the leading digit. -/
structure Layout where
  leastPositional : Int
  pastPositional : Int

/-- Doubles are written positionally from 0.0001 up to 10^16. -/
def layout : Layout := ⟨-4, 16⟩

/-- A written exponent has a sign and at least two digits. -/
def exponentText (e : Int) : List Char :=
  let digits := (toString e.natAbs).toList
  (if e < 0 then '-' else '+') :: (List.replicate (2 - digits.length) '0' ++ digits)

/-- Digits written positionally; `whole` of them stand before the point, and at least one digit
stands on either side of it. -/
def positional (digits : List Char) (whole : Int) : List Char :=
  if whole ≤ 0 then '0' :: '.' :: List.replicate whole.natAbs '0' ++ digits
  else
    let before := digits.take whole.toNat
    let after := digits.drop whole.toNat
    before ++ List.replicate (whole.toNat - before.length) '0' ++ '.' ::
      (if after.isEmpty then ['0'] else after)

/-- Digits written with an exponent; a single digit stands without a point. -/
def scientific (digits : List Char) (whole : Int) : List Char :=
  let mantissa :=
    match digits with
    | [] => ['0']
    | [d] => [d]
    | d :: rest => d :: '.' :: rest
  mantissa ++ 'e' :: exponentText (whole - 1)

/-- The text of a positive finite double. -/
def magnitudeText (significand : Nat) (exponent : Int) : List Char :=
  let decimal := ofFinite significand exponent
  let whole : Int := ((toString decimal.digits).length : Int) + decimal.power
  let digits := significantDigits decimal.digits
  if layout.leastPositional ≤ whole - 1 ∧ whole - 1 < layout.pastPositional then
    positional digits whole
  else scientific digits whole

end ComponentRegistry.Shortest

namespace ComponentRegistry

/-- The text of a double. -/
def Binary64.text : Binary64 → String
  | .nan => "nan"
  | .infinite negative => if negative then "-inf" else "inf"
  | .finite negative significand exponent =>
    let magnitude :=
      if significand = 0 then "0.0" else String.ofList (Shortest.magnitudeText significand exponent)
    if negative then "-" ++ magnitude else magnitude

/-- The text of a quantity: a whole number without a point, a double with one or an exponent. -/
def Quantity.text : Quantity → String
  | .whole n => toString n
  | .double d => d.text

end ComponentRegistry
