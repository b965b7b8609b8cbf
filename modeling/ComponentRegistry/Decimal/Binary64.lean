/-! # Double-precision numbers

Doubles as exact data: a significand and a power of two. Rounding happens in one place, when an
exact ratio is fitted to the format, and goes to the nearest double, of two equally near ones to
the one with the even significand.
-/

namespace ComponentRegistry

/-- A power of two. -/
def powerOfTwo (k : Nat) : Nat := Nat.pow 2 k

/-- A power of ten. -/
def powerOfTen (k : Nat) : Nat := Nat.pow 10 k

/-- A double-precision number. A finite one stands for its significand times two to its exponent;
the significand is below 2^53, and at least 2^52 unless the exponent is the least one, -1074. -/
inductive Binary64 where
  /-- A finite number. Zero has a sign. -/
  | finite (negative : Bool) (significand : Nat) (exponent : Int)
  /-- An infinity. -/
  | infinite (negative : Bool)
  /-- No number. -/
  | nan
  deriving Repr, DecidableEq

namespace Binary64

/-- The least exponent of the format. -/
def leastExponent : Int := -1074

/-- The greatest exponent of the format. -/
def greatestExponent : Int := 971

/-- Zero with a sign. -/
def zero (negative : Bool) : Binary64 := .finite negative 0 leastExponent

/-- A ratio rounded to the nearest whole number, halves to the even one. -/
def roundRatio (numerator denominator : Nat) : Nat :=
  let quotient := numerator / denominator
  let twice := 2 * (numerator % denominator)
  if twice < denominator then quotient
  else if denominator < twice then quotient + 1
  else quotient + quotient % 2

/-- Numerator and denominator of a ratio times a power of two. -/
def shiftRatio (numerator denominator : Nat) (power : Int) : Nat × Nat :=
  if 0 ≤ power then (numerator * powerOfTwo power.toNat, denominator)
  else (numerator, denominator * powerOfTwo power.natAbs)

/-- The exponent that gives a positive ratio a significand of full length, or the least exponent. -/
def exponentFor (numerator denominator : Nat) : Int :=
  let guess : Int := (numerator.log2 : Int) - denominator.log2 - 52
  let (n, d) := shiftRatio numerator denominator (-guess)
  max leastExponent (if n / d < powerOfTwo 52 then guess - 1 else guess)

/-- The double nearest to a ratio. -/
def ofRatio (negative : Bool) (numerator denominator : Nat) : Binary64 :=
  if numerator = 0 then zero negative
  else
    let exponent := exponentFor numerator denominator
    let (n, d) := shiftRatio numerator denominator (-exponent)
    let significand := roundRatio n d
    let (significand, exponent) :=
      if significand = powerOfTwo 53 then (powerOfTwo 52, exponent + 1)
      else (significand, exponent)
    if greatestExponent < exponent then .infinite negative
    else .finite negative significand exponent

/-- The double nearest to a decimal numeral, `digits` times ten to `power`. Numerals far outside the
range are decided by their magnitude alone. -/
def ofDecimal (negative : Bool) (digits : Nat) (power : Int) : Binary64 :=
  let magnitude := ((toString digits).length : Int) + power
  if digits = 0 ∨ magnitude < -330 then zero negative
  else if 310 < magnitude then .infinite negative
  else if 0 ≤ power then ofRatio negative (digits * powerOfTen power.toNat) 1
  else ofRatio negative digits (powerOfTen power.natAbs)

/-- The double nearest to a whole number. -/
def ofInt (n : Int) : Binary64 := ofRatio (n < 0) n.natAbs 1

/-- A double times a power of two. -/
def scale (power : Int) : Binary64 → Binary64
  | .finite negative significand exponent =>
    let (n, d) := shiftRatio significand 1 (exponent + power)
    ofRatio negative n d
  | .infinite negative => .infinite negative
  | .nan => .nan

/-- A double times zero: the zero with its sign, unless it is no finite number. -/
def timesZero : Binary64 → Binary64
  | .finite negative _ _ => zero negative
  | .infinite _ | .nan => .nan

end Binary64

/-- A quantity that is either an exact whole number or a double. The two are never confused, since
they print differently. -/
inductive Quantity where
  /-- A whole number of any size. -/
  | whole (n : Int)
  /-- A double. -/
  | double (d : Binary64)
  deriving Repr, DecidableEq

namespace Quantity

/-- Where a quantity lies on the extended number line: a whole number times a power of two, or an
infinity. Nothing for what is no number. -/
inductive Place where
  | below
  | at (n : Int) (power : Int)
  | above
  deriving Repr, DecidableEq

/-- The place of a quantity. -/
def place : Quantity → Option Place
  | .whole n => some (.at n 0)
  | .double (.finite negative significand exponent) =>
    some (.at (if negative then -(significand : Int) else significand) exponent)
  | .double (.infinite true) => some .below
  | .double (.infinite false) => some .above
  | .double .nan => none

/-- Whether one place lies before another. -/
def Place.lt : Place → Place → Bool
  | .below, .below => false
  | .below, _ => true
  | _, .below => false
  | .above, _ => false
  | _, .above => true
  | .at n p, .at m q =>
    let common := min p q
    n * powerOfTwo (p - common).toNat < m * powerOfTwo (q - common).toNat

/-- Whether one quantity is less than another, in exact arithmetic. What is no number is less than
nothing, and nothing is less than it. -/
def lt (a b : Quantity) : Bool :=
  match a.place, b.place with
  | some p, some q => p.lt q
  | _, _ => false

/-- The lesser of two quantities, the first when they are equal or not comparable. -/
def least (a b : Quantity) : Quantity := if b.lt a then b else a

/-- Whether two quantities are the same number, however they are written. -/
def sameNumber (a b : Quantity) : Bool :=
  match a.place, b.place with
  | some p, some q => !p.lt q && !q.lt p
  | _, _ => false

/-- The whole number that a quantity is, if it is one. -/
def whole? : Quantity → Option Int
  | .whole n => some n
  | .double (.finite negative significand exponent) =>
    let (n, d) := Binary64.shiftRatio significand 1 exponent
    if n % d = 0 then some (if negative then -((n / d : Nat) : Int) else (n / d : Nat)) else none
  | .double (.infinite _) | .double .nan => none

end Quantity

end ComponentRegistry
