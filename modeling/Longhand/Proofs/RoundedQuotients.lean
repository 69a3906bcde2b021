import Longhand.Proofs.ExactCalculation
import Longhand.Proofs.PlacesRounding
/-!
# A quotient is rounded once

Rounding to places is told by the number alone (`roundsAway_iff`): of the multiples of the last place
it takes the nearest, and of two that are equally near the one farther away from zero. A quotient that
is worked out on fractions of integers is so rounded, whatever the signs and exponents of the operands,
and since it depends on nothing but the quotient of the numbers, a common factor cancels
(`Decimal.divideHalfUp_congr`).

Main result: `quotient_rounded_once`. On the way to a number the rounded quotient is written in units of
its last place, and there is none if it has too many digits.
-/

namespace Longhand

/-! ## The nearest multiple, away from zero -/

/-- `r` is the multiple of `10 ^ (-places)` that `x` is rounded to: at most half a unit away, and on an
exact tie farther away from zero than `x`. -/
structure RoundsAway (x : ℚ) (places : Nat) (r : ℚ) : Prop where
  multiple : ∃ k : Int, r = k / 10 ^ places
  near : |r - x| ≤ 1 / 10 ^ places / 2
  tie : |r - x| = 1 / 10 ^ places / 2 → |x| < |r|

section

variable {x r : ℚ} {places : Nat}

/-- In units of the last place the multiples are the integers. -/
theorem roundsAway_iff_units {k : Int} : RoundsAway x places (k / 10 ^ places) ↔
    |k - x * 10 ^ places| ≤ 1 / 2 ∧
      (|k - x * 10 ^ places| = 1 / 2 → |x * 10 ^ places| < |(k : ℚ)|) := by
  have hpow : (0 : ℚ) < 10 ^ places := by positivity
  have hdistance : |(k : ℚ) / 10 ^ places - x| = |k - x * 10 ^ places| / 10 ^ places := by
    rw [← abs_of_pos hpow, ← abs_div, abs_of_pos hpow, sub_div, mul_div_cancel_right₀ _ hpow.ne']
  have hsize : |x| < |(k : ℚ) / 10 ^ places| ↔ |x * 10 ^ places| < |(k : ℚ)| := by
    rw [abs_div, abs_mul, abs_of_pos hpow, lt_div_iff₀ hpow]
  have hhalf : (1 : ℚ) / 10 ^ places / 2 = 1 / 2 / 10 ^ places := by
    rw [div_right_comm]
  constructor
  · rintro ⟨-, hnear, htie⟩
    rw [hdistance, hhalf] at hnear htie
    rw [hsize] at htie
    exact ⟨(div_le_div_iff_of_pos_right hpow).1 hnear, fun h => htie (by rw [h])⟩
  · rintro ⟨hnear, htie⟩
    refine ⟨⟨k, rfl⟩, ?_, ?_⟩
    · rw [hdistance, hhalf]
      exact (div_le_div_iff_of_pos_right hpow).2 hnear
    · rw [hdistance, hhalf, hsize]
      exact fun h => htie ((div_left_inj' hpow.ne').1 h)

/-- Of two integers that are equally near to a number one is not farther away from zero. -/
theorem not_lt_of_nearest {y : ℚ} {k l : Int} (hk : |k - y| ≤ 1 / 2) (hl : |l - y| ≤ 1 / 2)
    (hktie : |k - y| = 1 / 2 → |y| < |(k : ℚ)|) (hltie : |l - y| = 1 / 2 → |y| < |(l : ℚ)|) :
    ¬ k < l := by
  intro hlt
  have hnext : (k : ℚ) + 1 ≤ l := by exact_mod_cast hlt
  obtain ⟨hklow, -⟩ := abs_le.1 hk
  obtain ⟨-, hlhigh⟩ := abs_le.1 hl
  -- both are half a unit away, on either side
  have hy : y = k + 1 / 2 := by linarith
  have hl : (l : ℚ) = k + 1 := by linarith
  have hkfar := hktie (by rw [hy, sub_add_cancel_left, abs_neg, abs_of_pos (by norm_num)])
  have hlfar := hltie (by rw [hl, hy, add_sub_add_left_eq_sub, abs_of_pos] <;> norm_num)
  rcases le_or_gt 0 k with hnonneg | hneg
  · have hnonneg : (0 : ℚ) ≤ k := by exact_mod_cast hnonneg
    rw [hy, abs_of_nonneg (by linarith), abs_of_nonneg hnonneg] at hkfar
    linarith
  · have hneg : (k : ℚ) + 1 ≤ 0 := by exact_mod_cast hneg
    rw [hl, hy, abs_of_neg (by linarith), abs_of_nonpos hneg] at hlfar
    linarith

theorem RoundsAway.unique {r' : ℚ} (h : RoundsAway x places r) (h' : RoundsAway x places r') :
    r = r' := by
  obtain ⟨k, rfl⟩ := h.multiple
  obtain ⟨l, rfl⟩ := h'.multiple
  obtain ⟨hk, hktie⟩ := roundsAway_iff_units.1 h
  obtain ⟨hl, hltie⟩ := roundsAway_iff_units.1 h'
  have hle := not_lt.1 (not_lt_of_nearest hk hl hktie hltie)
  have hge := not_lt.1 (not_lt_of_nearest hl hk hltie hktie)
  rw [le_antisymm hge hle]

/-- A size that is rounded half up is at most half a unit away, and above on a tie. -/
theorem abs_halfUp_sub {y : ℚ} (hy : 0 ≤ y) :
    |halfUp y - y| ≤ 1 / 2 ∧ (|halfUp y - y| = 1 / 2 → y < halfUp y) := by
  have hlow := lt_halfUp y
  have hhigh := halfUp_le hy
  refine ⟨abs_le.2 ⟨by linarith, by linarith⟩, fun htie => ?_⟩
  rcases (abs_eq (by norm_num)).1 htie with h | h <;> linarith

theorem RoundsAway.neg (h : RoundsAway x places r) : RoundsAway (-x) places (-r) where
  multiple := by
    obtain ⟨k, rfl⟩ := h.multiple
    exact ⟨-k, by rw [Int.cast_neg, neg_div]⟩
  near := by
    rw [neg_sub_neg, abs_sub_comm]
    exact h.near
  tie := by
    rw [neg_sub_neg, abs_sub_comm, abs_neg, abs_neg]
    exact h.tie

theorem awayFromZero_neg (x : ℚ) (places : Int) :
    awayFromZero (-x) places = -awayFromZero x places := by
  rw [awayFromZero, awayFromZero, Left.sign_neg, abs_neg, SignType.coe_neg, neg_mul, neg_div]

theorem roundsAway_awayFromZero (x : ℚ) (places : Nat) :
    RoundsAway x places (awayFromZero x places) := by
  wlog hx : 0 ≤ x generalizing x
  · have hneg := (this (-x) (neg_nonneg.2 (not_le.1 hx).le)).neg
    rwa [awayFromZero_neg, neg_neg, neg_neg] at hneg
  have hunits : awayFromZero x places = ((halfUp (x * 10 ^ places) : Int) : ℚ) / 10 ^ places := by
    rw [awayFromZero_eq, abs_of_nonneg hx, zpow_natCast, Int.cast_natCast]
    rcases hx.eq_or_lt with rfl | hpos
    · have hzero : halfUp 0 = 0 := by simpa using halfUp_natCast 0
      simp [hzero]
    · rw [sign_pos hpos, SignType.coe_one, one_mul]
  have hscaled : 0 ≤ x * 10 ^ places := by positivity
  obtain ⟨hnear, htie⟩ := abs_halfUp_sub hscaled
  rw [hunits, roundsAway_iff_units, Int.cast_natCast, Nat.abs_cast, abs_of_nonneg hscaled]
  exact ⟨hnear, htie⟩

/-- **The rounded number is the one.** -/
theorem roundsAway_iff : RoundsAway x places r ↔ r = awayFromZero x places := by
  constructor
  · intro h
    exact h.unique (roundsAway_awayFromZero x places)
  · rintro rfl
    exact roundsAway_awayFromZero x places

end

/-! ## Quotients -/

namespace Decimal

variable {a b : Decimal}

theorem toRat_ne_zero (hb : b.isZero = false) : b.toRat ≠ 0 := by
  rw [← b.isZero_iff.ne, hb]
  exact Bool.false_ne_true

/-- **The rounded quotient is told by the quotient of the numbers.** -/
theorem divideHalfUp_congr {a' b' : Decimal} (hb : b.toRat ≠ 0) (hb' : b'.toRat ≠ 0)
    (h : a'.toRat / b'.toRat = a.toRat / b.toRat) (places : Nat) :
    a'.divideHalfUp b' places = a.divideHalfUp b places := by
  rw [a'.divideHalfUp_eq_abs hb', a.divideHalfUp_eq_abs hb, h]

theorem divideHalfUp_mul (hb : b.toRat ≠ 0) {c : Decimal} (hc : c.toRat ≠ 0) (places : Nat) :
    (a * c).divideHalfUp (b * c) places = a.divideHalfUp b places := by
  refine divideHalfUp_congr hb ?_ ?_ places
  · rw [toRat_mul]
    exact mul_ne_zero hb hc
  · rw [toRat_mul, toRat_mul, mul_div_mul_right _ _ hc]

theorem toRat_divideHalfUp_neg_left (hb : b.toRat ≠ 0) (places : Nat) :
    ((-a).divideHalfUp b places).toRat = -(a.divideHalfUp b places).toRat := by
  rw [toRat_divideHalfUp _ hb, toRat_divideHalfUp _ hb, toRat_neg, neg_div, awayFromZero_neg]

theorem toRat_divideHalfUp_neg_right (hb : b.toRat ≠ 0) (places : Nat) :
    (a.divideHalfUp (-b) places).toRat = -(a.divideHalfUp b places).toRat := by
  have hneg : (-b).toRat ≠ 0 := by
    rw [toRat_neg]
    exact neg_ne_zero.2 hb
  rw [toRat_divideHalfUp _ hneg, toRat_divideHalfUp _ hb, toRat_neg, div_neg, awayFromZero_neg]

end Decimal

/-- The rounded quotient as a number, unless it is too long to be written. -/
theorem DecimalValue.divideHalfUp_of_nonzero (a : Decimal) {b : Decimal} (hb : b.isZero = false)
    (places : Nat) :
    (finite a).divideHalfUp (finite b) places =
      if (a.divideHalfUp b places).coefficient < pow10 Digits.maxLength then
        .ok (Number.ofDecimal (a.divideHalfUp b places))
      else .error .nanFraction := by
  have hpos : 0 < Digits.maxLength := by decide
  rw [divideHalfUp_finite a hb, Decimal.digitCount]
  simp only [← not_le, Digits.length_ofNat_le_iff hpos, ite_not]

/-! ## Main result -/

/-- **A quotient is rounded once.** For a divisor that is not zero, the decimal at the exponent
`-places` is the one multiple of the last place that the quotient of the numbers is rounded to. It
changes its sign with either operand, and a common factor of the operands makes no difference. It
becomes the number answered unless its coefficient has too many digits to be written. -/
theorem quotient_rounded_once (a : Decimal) {b : Decimal} (hb : b.isZero = false) (places : Nat) :
    (a.divideHalfUp b places).exponent = -places ∧
      (∀ r, RoundsAway (a.toRat / b.toRat) places r ↔ r = (a.divideHalfUp b places).toRat) ∧
      ((-a).divideHalfUp b places).toRat = -(a.divideHalfUp b places).toRat ∧
      (a.divideHalfUp (-b) places).toRat = -(a.divideHalfUp b places).toRat ∧
      (∀ c : Decimal, c.isZero = false →
        (a * c).divideHalfUp (b * c) places = a.divideHalfUp b places) ∧
      (DecimalValue.finite a).divideHalfUp (.finite b) places =
        if (a.divideHalfUp b places).coefficient < pow10 Digits.maxLength then
          .ok (Number.ofDecimal (a.divideHalfUp b places))
        else .error .nanFraction := by
  have hne := Decimal.toRat_ne_zero hb
  refine ⟨rfl, fun r => ?_, Decimal.toRat_divideHalfUp_neg_left hne places,
    Decimal.toRat_divideHalfUp_neg_right hne places, fun c hc => ?_, ?_⟩
  · rw [roundsAway_iff, Decimal.toRat_divideHalfUp a hne]
  · exact Decimal.divideHalfUp_mul hne (Decimal.toRat_ne_zero hc) places
  · exact DecimalValue.divideHalfUp_of_nonzero a hb places

/-- A tie with a divisor less than zero: an eighth less than zero is rounded to thirteen hundredths
less than zero. -/
theorem quotient_rounded_once_eighth :
    (⟨true, 8, 0⟩ : Decimal).isZero = false ∧ RoundsAway (-1 / 8) 2 (-13 / 100) ∧
      (DecimalValue.finite ⟨false, 100, -2⟩).divideHalfUp (.finite ⟨true, 8, 0⟩) 2 =
        .ok (Number.ofDecimal ⟨true, 13, -2⟩) := by
  have hb : (⟨true, 8, 0⟩ : Decimal).isZero = false := by decide
  have hquotient : (⟨false, 100, -2⟩ : Decimal).divideHalfUp ⟨true, 8, 0⟩ 2 = ⟨true, 13, -2⟩ := by
    decide +kernel
  obtain ⟨-, hrounds, -, -, -, hnumber⟩ := quotient_rounded_once ⟨false, 100, -2⟩ hb 2
  rw [hquotient] at hrounds hnumber
  have hshort : 13 < pow10 Digits.maxLength := by decide +kernel
  have hvalue : (⟨false, 100, -2⟩ : Decimal).toRat / (⟨true, 8, 0⟩ : Decimal).toRat = -1 / 8 := by
    rw [Decimal.toRat_signed_mk, Decimal.toRat_signed_mk]
    norm_num
  have hrounded : (-13 / 100 : ℚ) = (⟨true, 13, -2⟩ : Decimal).toRat := by
    rw [Decimal.toRat_signed_mk]
    norm_num
  refine ⟨hb, hvalue ▸ (hrounds _).2 hrounded, ?_⟩
  rw [if_pos hshort] at hnumber
  exact hnumber

/-- An eighth less than zero is itself the rounded quotient, but in units of the last of so many
places it has too many digits to be written. -/
theorem eighth_too_long_to_write :
    (⟨true, 8, 0⟩ : Decimal).isZero = false ∧ RoundsAway (-1 / 8) 4303 (-1 / 8) ∧
      (DecimalValue.finite ⟨false, 1, 0⟩).divideHalfUp (.finite ⟨true, 8, 0⟩) 4303 =
        .error .nanFraction := by
  have hb : (⟨true, 8, 0⟩ : Decimal).isZero = false := by decide
  have hlong : ¬ ((⟨false, 1, 0⟩ : Decimal).divideHalfUp ⟨true, 8, 0⟩ 4303).coefficient <
      pow10 Digits.maxLength := by
    decide +kernel
  refine ⟨hb, ?_, (DecimalValue.divideHalfUp_of_nonzero _ hb 4303).trans (if_neg hlong)⟩
  have hvalue : (-1 / 8 : ℚ) = (⟨true, 125, -3⟩ : Decimal).toRat := by
    rw [Decimal.toRat_signed_mk]
    norm_num
  rw [roundsAway_iff, hvalue, Decimal.awayFromZero_of_le (by decide)]

end Longhand
