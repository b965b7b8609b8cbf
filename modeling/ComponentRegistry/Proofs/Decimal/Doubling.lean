import Mathlib.Algebra.Order.Field.Power
import Mathlib.Data.Nat.Log
import Mathlib.Data.Rat.Cast.Order
import Mathlib.Order.WithBot
import Mathlib.Tactic.Positivity
import ComponentRegistry.Serving.Retry

/-! # Doubling quantities

What a quantity is as an exact number, and what becomes of it when it is doubled a number of times.
Doubling loses no digit: a double is doubled exactly, until it leaves the range of the format and
becomes infinite.
-/

namespace ComponentRegistry

theorem powerOfTwo_eq (k : ℕ) : powerOfTwo k = 2 ^ k := rfl

theorem lt_powerOfTwo (k : ℕ) : k < powerOfTwo k := Nat.lt_two_pow_self

namespace Binary64

/-- A finite number of the format, whatever exponent it is written with. -/
def IsFinite : Binary64 → Prop
  | .finite _ significand exponent =>
    significand < powerOfTwo 53 ∧ leastExponent ≤ exponent ∧ exponent ≤ greatestExponent
  | .infinite _ | .nan => False

instance : DecidablePred IsFinite
  | .finite .. => inferInstanceAs (Decidable (_ < _ ∧ _ ≤ _ ∧ _ ≤ _))
  | .infinite _ | .nan => inferInstanceAs (Decidable False)

/-- The number that a finite double stands for. -/
def value : Binary64 → ℚ
  | .finite negative significand exponent =>
    (if negative then -1 else 1) * (significand * 2 ^ exponent)
  | .infinite _ | .nan => 0

/-- The exponent that puts the first digit of a number in front, or the least one of the format. -/
def leadingExponent (significand : ℕ) (exponent : ℤ) : ℤ :=
  max leastExponent (significand.log2 + exponent - 52)

/-- Shifting a ratio that stays whole leaves nothing to round. -/
theorem shiftRatio_shiftRatio (significand : ℕ) {k p : ℤ} (h : 0 ≤ k + p) :
    ∃ d, 0 < d ∧ shiftRatio (shiftRatio significand 1 k).1 (shiftRatio significand 1 k).2 p =
      (significand * 2 ^ (k + p).toNat * d, d) := by
  by_cases hk : 0 ≤ k <;> by_cases hp : 0 ≤ p
  · refine ⟨1, Nat.one_pos, ?_⟩
    simp only [shiftRatio, hk, hp, ↓reduceIte, powerOfTwo_eq, mul_one, Prod.mk.injEq, and_true]
    rw [Int.toNat_add hk hp, pow_add, mul_assoc]
  · refine ⟨2 ^ p.natAbs, by positivity, ?_⟩
    simp only [shiftRatio, hk, hp, ↓reduceIte, powerOfTwo_eq, one_mul, Prod.mk.injEq, and_true]
    rw [mul_assoc, ← pow_add]
    congr 2
    omega
  · refine ⟨2 ^ k.natAbs, by positivity, ?_⟩
    simp only [shiftRatio, hk, hp, ↓reduceIte, powerOfTwo_eq, one_mul, Prod.mk.injEq, and_true]
    rw [mul_assoc, ← pow_add]
    congr 2
    omega
  · omega

theorem roundRatio_mul (n : ℕ) {d : ℕ} (hd : 0 < d) : roundRatio (n * d) d = n := by
  simp [roundRatio, Nat.mul_div_cancel _ hd, hd]

theorem log2_mul_two_pow {n : ℕ} (hn : n ≠ 0) (k : ℕ) : (n * 2 ^ k).log2 = n.log2 + k := by
  have hne : n * 2 ^ k ≠ 0 := by positivity
  rw [Nat.log2_eq_iff hne]
  constructor
  · rw [pow_add]
    exact Nat.mul_le_mul_right _ (Nat.log2_self_le hn)
  · rw [Nat.add_right_comm, pow_add]
    exact Nat.mul_lt_mul_of_pos_right Nat.lt_log2_self (by positivity)

section Range

variable {significand : ℕ} {k : ℤ}

theorem exponentFor_shiftRatio (hpos : significand ≠ 0) (hsmall : significand < 2 ^ 53) :
    exponentFor (shiftRatio significand 1 k).1 (shiftRatio significand 1 k).2 =
      leadingExponent significand k := by
  have hlog : significand.log2 < 53 := (Nat.log2_lt hpos).2 hsmall
  have hguess :
      ((shiftRatio significand 1 k).1.log2 : ℤ) - (shiftRatio significand 1 k).2.log2 - 52 =
        significand.log2 + k - 52 := by
    by_cases hk : 0 ≤ k
    · simp only [shiftRatio, hk, ↓reduceIte, powerOfTwo_eq, log2_mul_two_pow hpos,
        show Nat.log2 1 = 0 by decide]
      omega
    · simp only [shiftRatio, hk, ↓reduceIte, powerOfTwo_eq, one_mul, Nat.log2_two_pow]
      omega
  obtain ⟨d, hd, hshift⟩ := shiftRatio_shiftRatio significand (k := k)
    (p := -(significand.log2 + k - 52)) (by omega)
  have hlead : 2 ^ 52 ≤ significand * 2 ^ (k + -(significand.log2 + k - 52)).toNat :=
    calc 2 ^ 52 = 2 ^ significand.log2 * 2 ^ (k + -(significand.log2 + k - 52)).toNat := by
          rw [← pow_add]
          congr 1
          omega
      _ ≤ _ := Nat.mul_le_mul_right _ (Nat.log2_self_le hpos)
  simp only [exponentFor, hguess, hshift, Nat.mul_div_cancel _ hd, powerOfTwo_eq]
  rw [if_neg (Nat.not_lt.2 hlead), leadingExponent]

/-- The digits of a number still fit behind its leading exponent. -/
theorem digits_lt (hpos : significand ≠ 0) (hsmall : significand < 2 ^ 53) :
    significand * 2 ^ (k - leadingExponent significand k).toNat < 2 ^ 53 := by
  have hlog : significand.log2 < 53 := (Nat.log2_lt hpos).2 hsmall
  have hlead : significand.log2 + k - 52 ≤ leadingExponent significand k := le_max_right _ _
  calc significand * 2 ^ (k - leadingExponent significand k).toNat
      < 2 ^ (significand.log2 + 1) * 2 ^ (k - leadingExponent significand k).toNat :=
        Nat.mul_lt_mul_of_pos_right Nat.lt_log2_self (by positivity)
    _ ≤ 2 ^ 53 := by
        rw [← pow_add]
        exact Nat.pow_le_pow_right (by omega) (by omega)

/-- A number with few enough digits is written exactly, unless it is out of range. -/
theorem ofRatio_shiftRatio (negative : Bool) (hpos : significand ≠ 0)
    (hsmall : significand < 2 ^ 53) (hk : leastExponent ≤ k) :
    ofRatio negative (shiftRatio significand 1 k).1 (shiftRatio significand 1 k).2 =
      if greatestExponent < leadingExponent significand k then .infinite negative
      else .finite negative (significand * 2 ^ (k - leadingExponent significand k).toNat)
        (leadingExponent significand k) := by
  have hlog : significand.log2 < 53 := (Nat.log2_lt hpos).2 hsmall
  have hne : (shiftRatio significand 1 k).1 ≠ 0 := by
    unfold shiftRatio
    split
    · simp [powerOfTwo_eq, hpos]
    · exact hpos
  have hle : leadingExponent significand k ≤ k := max_le hk (by omega)
  obtain ⟨d, hd, hshift⟩ := shiftRatio_shiftRatio significand (k := k)
    (p := -leadingExponent significand k) (by omega)
  rw [ofRatio, if_neg hne]
  simp only [exponentFor_shiftRatio hpos hsmall, hshift, roundRatio_mul _ hd, powerOfTwo_eq,
    ← sub_eq_add_neg]
  rw [if_neg (Nat.ne_of_lt (digits_lt hpos hsmall))]

/-- How large a number is can be told by its first digit. -/
theorem two_zpow_le_iff (hpos : significand ≠ 0) (n : ℤ) :
    (2 : ℚ) ^ n ≤ significand * 2 ^ k ↔ n ≤ significand.log2 + k := by
  have htwo : (0 : ℚ) < 2 ^ k := by positivity
  constructor
  · intro hle
    by_contra hlt
    have habove : (significand : ℚ) < 2 ^ ((significand.log2 : ℤ) + 1) := by
      exact_mod_cast Nat.lt_log2_self (n := significand)
    have : (significand : ℚ) * 2 ^ k < 2 ^ n :=
      calc (significand : ℚ) * 2 ^ k < 2 ^ ((significand.log2 : ℤ) + 1) * 2 ^ k :=
            mul_lt_mul_of_pos_right habove htwo
        _ = 2 ^ ((significand.log2 : ℤ) + 1 + k) := (zpow_add₀ two_ne_zero _ _).symm
        _ ≤ 2 ^ n := zpow_le_zpow_right₀ one_le_two (by omega)
    exact absurd hle (not_le.2 this)
  · intro hle
    have hbelow : (2 : ℚ) ^ (significand.log2 : ℤ) ≤ significand := by
      exact_mod_cast Nat.log2_self_le hpos
    calc (2 : ℚ) ^ n ≤ 2 ^ ((significand.log2 : ℤ) + k) := zpow_le_zpow_right₀ one_le_two hle
      _ = 2 ^ (significand.log2 : ℤ) * 2 ^ k := zpow_add₀ two_ne_zero _ _
      _ ≤ significand * 2 ^ k := mul_le_mul_of_nonneg_right hbelow htwo.le

theorem leadingExponent_gt_iff (hpos : significand ≠ 0) :
    greatestExponent < leadingExponent significand k ↔
      (2 : ℚ) ^ (1024 : ℤ) ≤ significand * 2 ^ k := by
  rw [two_zpow_le_iff hpos, leadingExponent, leastExponent, greatestExponent]
  omega

end Range

theorem shiftRatio_zero (k : ℤ) : (shiftRatio 0 1 k).1 = 0 := by
  unfold shiftRatio
  split
  · exact Nat.zero_mul _
  · rfl

theorem value_zero (negative : Bool) : (zero negative).value = 0 := by
  simp [zero, value]

theorem negative_eq_false {negative : Bool} {significand : ℕ} {exponent : ℤ}
    (hpos : significand ≠ 0) (hnonneg : 0 ≤ (finite negative significand exponent).value) :
    negative = false := by
  cases negative with
  | false => rfl
  | true =>
    have hvalue : (0 : ℚ) < significand * 2 ^ exponent := by positivity
    rw [value, if_pos rfl, neg_one_mul, neg_nonneg] at hnonneg
    exact absurd hnonneg (not_le.2 hvalue)

/-- A double that is not negative is doubled exactly, or becomes infinite. -/
theorem scale_of_isFinite {d : Binary64} (hd : d.IsFinite) (hnonneg : 0 ≤ d.value) (times : ℕ) :
    (d.value * 2 ^ times < 2 ^ 1024 →
      (d.scale times).IsFinite ∧ (d.scale times).value = d.value * 2 ^ times) ∧
    (2 ^ 1024 ≤ d.value * 2 ^ times → d.scale times = .infinite false) := by
  match d, hd with
  | .finite negative significand exponent, ⟨hsmall, hleast, hgreatest⟩ =>
  rw [powerOfTwo_eq] at hsmall
  by_cases hpos : significand = 0
  · subst hpos
    have hscale : scale times (finite negative 0 exponent) = zero negative := by
      simp [scale, ofRatio, shiftRatio_zero]
    have hzero : (finite negative 0 exponent).value = 0 := by simp [value]
    rw [hscale, hzero, value_zero, zero_mul]
    refine ⟨fun _ => ⟨?_, rfl⟩, fun hle => absurd hle (by norm_num)⟩
    simp [zero, IsFinite, powerOfTwo_eq, leastExponent, greatestExponent]
  · obtain rfl := negative_eq_false hpos hnonneg
    have hvalue : (finite false significand exponent).value * 2 ^ times =
        significand * 2 ^ (exponent + times) := by
      rw [value, zpow_add₀ two_ne_zero, zpow_natCast]
      simp [mul_assoc]
    have hscale : scale times (finite false significand exponent) = _ :=
      ofRatio_shiftRatio false hpos hsmall (k := exponent + times) (by omega)
    have hrange := leadingExponent_gt_iff (k := exponent + times) hpos
    rw [zpow_ofNat] at hrange
    rw [hvalue, hscale]
    constructor
    · intro hlt
      have hin : ¬ greatestExponent < leadingExponent significand (exponent + times) :=
        fun hout => absurd (hrange.1 hout) (not_le.2 hlt)
      have hle : leadingExponent significand (exponent + times) ≤ exponent + times := by
        have hlog : significand.log2 < 53 := (Nat.log2_lt hpos).2 hsmall
        exact max_le (by omega) (by omega)
      rw [if_neg hin]
      refine ⟨⟨digits_lt hpos hsmall, le_max_left _ _, not_lt.1 hin⟩, ?_⟩
      simp only [value, Bool.false_eq_true, ↓reduceIte, one_mul, Nat.cast_mul, Nat.cast_pow,
        Nat.cast_ofNat]
      rw [mul_assoc, ← zpow_natCast, ← zpow_add₀ two_ne_zero]
      congr 2
      omega
    · intro hle
      rw [if_pos (hrange.2 hle)]

end Binary64

namespace Quantity

/-- A whole number, or a finite double. -/
def IsFinite : Quantity → Prop
  | .whole _ => True
  | .double d => d.IsFinite

instance : DecidablePred IsFinite
  | .whole _ => inferInstanceAs (Decidable True)
  | .double d => inferInstanceAs (Decidable d.IsFinite)

/-- The number that a finite quantity is. -/
def value : Quantity → ℚ
  | .whole n => n
  | .double d => d.value

/-- A quantity times a power of two. Whole numbers have no bound; doubles beyond the range of the
format are infinite. -/
def timesTwoTo (times : ℕ) : Quantity → WithTop ℚ
  | .whole n => ((n * 2 ^ times : ℚ) : WithTop ℚ)
  | .double d =>
    if d.value * 2 ^ times < 2 ^ 1024 then ((d.value * 2 ^ times : ℚ) : WithTop ℚ) else ⊤

/-- How often a quantity can be doubled. The factor has to be a double itself, next to a double. -/
def doublings : Quantity → ℕ
  | .whole _ => powerOfTwo 1024
  | .double _ => 1024

theorem place_of_isFinite {q : Quantity} (h : q.IsFinite) :
    ∃ n p, q.place = some (.at n p) ∧ q.value = n * 2 ^ p := by
  match q, h with
  | .whole n, _ => exact ⟨n, 0, rfl, by simp [value]⟩
  | .double (.finite negative significand exponent), _ =>
    refine ⟨_, exponent, rfl, ?_⟩
    cases negative <;> simp [value, Binary64.value]

/-- Finite quantities are compared as numbers. -/
theorem lt_iff {a b : Quantity} (ha : a.IsFinite) (hb : b.IsFinite) :
    a.lt b = true ↔ a.value < b.value := by
  obtain ⟨n, p, hp, hn⟩ := place_of_isFinite ha
  obtain ⟨m, q, hq, hm⟩ := place_of_isFinite hb
  have hcommon : ∀ (x : ℤ) {r : ℤ}, min p q ≤ r →
      (x : ℚ) * 2 ^ r = ((x * powerOfTwo (r - min p q).toNat : ℤ) : ℚ) * 2 ^ min p q := by
    intro x r hr
    have hsplit : (2 : ℚ) ^ r = 2 ^ (r - min p q).toNat * 2 ^ min p q := by
      rw [← zpow_natCast, ← zpow_add₀ two_ne_zero]
      congr 1
      omega
    rw [hsplit, powerOfTwo_eq, ← mul_assoc]
    push_cast
    rfl
  rw [lt, hp, hq, hn, hm, hcommon n (min_le_left p q), hcommon m (min_le_right p q)]
  simp only [Place.lt, decide_eq_true_eq]
  rw [mul_lt_mul_iff_left₀ (by positivity), Int.cast_lt]

theorem least_of_isFinite {a b : Quantity} (ha : a.IsFinite) (hb : b.IsFinite) :
    (a.least b).IsFinite ∧ (a.least b).value = min a.value b.value := by
  unfold least
  split
  · next hlt => exact ⟨hb, (min_eq_right ((lt_iff hb ha).1 hlt).le).symm⟩
  · next hlt => exact ⟨ha, (min_eq_left (not_lt.1 ((lt_iff hb ha).not.1 hlt))).symm⟩

/-- What is finite is less than infinity. -/
theorem least_infinite {b : Quantity} (hb : b.IsFinite) :
    (Quantity.double (.infinite false)).least b = b := by
  obtain ⟨n, p, hp, -⟩ := place_of_isFinite hb
  have hlt : b.lt (.double (.infinite false)) = true := by
    rw [lt, hp]
    rfl
  rw [least, if_pos hlt]

/-- A quantity that is doubled and held to a limit. -/
theorem exists_doubled {q limit : Quantity} (hq : q.IsFinite) (hnonneg : 0 ≤ q.value)
    (hlimit : limit.IsFinite) {times : ℕ} (hlt : times < q.doublings) :
    ∃ r, q.doubled times = .ok r ∧ (r.least limit).IsFinite ∧
      ((r.least limit).value : WithTop ℚ) = min (q.timesTwoTo times) limit.value := by
  cases q with
  | whole n =>
    have hsmall : ¬ powerOfTwo 1024 ≤ (times : ℤ).natAbs := Nat.not_le.2 hlt
    have hdoubled : (Quantity.whole n).doubled times = .ok (.whole (n * powerOfTwo times)) := by
      rw [doubled, if_neg hsmall]
      simp
    obtain ⟨hfinite, hvalue⟩ :=
      least_of_isFinite (a := .whole (n * powerOfTwo times)) trivial hlimit
    refine ⟨_, hdoubled, hfinite, ?_⟩
    rw [hvalue, timesTwoTo, WithTop.coe_min]
    simp [value, powerOfTwo_eq]
  | double d =>
    have hsmall : ¬ powerOfTwo 1024 ≤ (times : ℤ).natAbs :=
      Nat.not_le.2 (hlt.trans (lt_powerOfTwo 1024))
    have hdoubled : (Quantity.double d).doubled times = .ok (.double (d.scale times)) := by
      have hbelow : ¬ (1024 : ℤ) ≤ times := by
        have : times < 1024 := hlt
        omega
      have hleast : ¬ (times : ℤ) < Binary64.leastExponent := by
        rw [Binary64.leastExponent]
        omega
      rw [doubled, if_neg hsmall]
      simp only [hbelow, hleast, ↓reduceIte]
    obtain ⟨hinside, houtside⟩ := Binary64.scale_of_isFinite hq hnonneg times
    by_cases hrange : d.value * 2 ^ times < 2 ^ 1024
    · obtain ⟨hfinite, hscale⟩ := hinside hrange
      obtain ⟨hfinite, hvalue⟩ := least_of_isFinite (a := .double (d.scale times)) hfinite hlimit
      refine ⟨_, hdoubled, hfinite, ?_⟩
      rw [hvalue, timesTwoTo, if_pos hrange, WithTop.coe_min]
      rw [value, hscale]
    · rw [houtside (not_lt.1 hrange)] at hdoubled
      refine ⟨_, hdoubled, ?_, ?_⟩
      · rwa [least_infinite hlimit]
      · rw [least_infinite hlimit, timesTwoTo, if_neg hrange, min_eq_right le_top]

theorem doubled_eq_overflow {q : Quantity} {times : ℕ} (hle : q.doublings ≤ times) :
    q.doubled times = .error .overflow := by
  unfold doubled
  split
  · rfl
  · next hsmall =>
    cases q with
    | whole n => exact absurd hle hsmall
    | double d =>
      have habove : (1024 : ℤ) ≤ times := by exact_mod_cast hle
      simp [habove]

end Quantity

end ComponentRegistry
