import Longhand.Proofs.RoundedDoubles
import Longhand.Proofs.WrittenNumbers
import Mathlib.Data.Sign.Basic
/-!
# Rounding to places is exact

A decimal is rounded by bringing it to an exponent in a working precision. The precision has room
for the digits that are left there (`Decimal.room_workingExponent`), and for a carry, so the number
that comes out is the multiple of the unit nearest to the decimal, a half going away from zero
(`Decimal.toRat_atExponent_workingExponent`). An exponent below the least one of the precision is
not reached; then the decimal lies so far below one that it has all its digits before that.

Rounding a quotient on fractions of integers has the same law (`Decimal.toRat_divideHalfUp`), and
the quotient by one becomes the same number. On the way it is written as an integer, and there is
none if that has too many digits (`DecimalValue.divideHalfUp_one`).

Main result: `places_rounding_exact`.
-/

namespace Longhand

/-! ## Away from zero -/

/-- The multiple of `10 ^ (-places)` nearest to a number, a half going away from zero. -/
def awayFromZero (x : ℚ) (places : Int) : ℚ :=
  SignType.sign x * ⌊|x| * 10 ^ places + 1 / 2⌋ / 10 ^ places

theorem awayFromZero_eq (x : ℚ) (places : Int) :
    awayFromZero x places = SignType.sign x * halfUp (|x| * 10 ^ places) / 10 ^ places := by
  have hnonneg : 0 ≤ |x| * 10 ^ places + 1 / 2 := by
    have hpow := Decimal.ten_zpow_pos places
    positivity
  rw [awayFromZero, halfUp, ← Int.natCast_floor_eq_floor hnonneg, Int.cast_natCast]

namespace Decimal

/-- A coefficient that is rounded half up, with the sign of the number. -/
theorem toRat_halfUp {negative : Bool} {x : ℚ} (hsign : x ≠ 0 → (negative = true ↔ x < 0))
    (places : Int) :
    (⟨negative, halfUp (|x| * 10 ^ places), -places⟩ : Decimal).toRat = awayFromZero x places := by
  rw [awayFromZero_eq, toRat_signed_mk, zpow_neg, ← div_eq_mul_inv]
  rcases lt_trichotomy x 0 with hneg | rfl | hpos
  · rw [(hsign hneg.ne).2 hneg, sign_neg hneg]
    simp
  · have hzero : halfUp 0 = 0 := by simpa using halfUp_natCast 0
    simp [hzero]
  · have hnot : negative ≠ true := fun h => hpos.not_gt ((hsign hpos.ne').1 h)
    rw [if_neg hnot, sign_pos hpos]
    simp

theorem negative_iff {d : Decimal} (h : d.toRat ≠ 0) : d.negative = true ↔ d.toRat < 0 := by
  have hzero : d.isZero = false := Bool.eq_false_iff.2 (mt d.isZero_iff.1 h)
  rw [← isNegative_iff, isNegative, hzero]
  simp

/-- A decimal brought to an exponent keeps its sign. -/
theorem atExponent_eq_abs (d : Decimal) (e : Int) :
    d.atExponent e = ⟨d.negative, halfUp (|d.toRat| / 10 ^ e), e⟩ := by
  have hsize := atExponent_eq (x := ⟨false, d.coefficient, d.exponent⟩) rfl e
  rw [toRat_mk, ← abs_toRat] at hsize
  have hcoefficient := congrArg coefficient hsize
  unfold atExponent at hcoefficient ⊢
  split <;> simp_all

theorem toRat_atExponent_neg (d : Decimal) (places : Int) :
    (d.atExponent (-places)).toRat = awayFromZero d.toRat places := by
  rw [atExponent_eq_abs, zpow_neg, div_inv_eq_mul, toRat_halfUp negative_iff]

/-- At a lower exponent the number stays the same. -/
theorem toRat_atExponent_of_le {d : Decimal} {e : Int} (h : e ≤ d.exponent) :
    (d.atExponent e).toRat = d.toRat := by
  have hpow : (pow10 (d.exponent - e).toNat : ℚ) = 10 ^ (d.exponent - e) := pow10_toNat (by omega)
  obtain ⟨negative, coefficient, exponent⟩ := d
  rw [atExponent_of_le h, toRat_signed_mk, toRat_signed_mk, Nat.cast_mul, hpow, ← mul_assoc,
    mul_assoc, ← ten_zpow_add, sub_add_cancel]

theorem awayFromZero_of_le {d : Decimal} {places : Int} (h : -places ≤ d.exponent) :
    awayFromZero d.toRat places = d.toRat := by
  rw [← toRat_atExponent_neg, toRat_atExponent_of_le h]

/-- The place of the first digit is within a bound if the size is. -/
theorem adjusted_le_iff {d : Decimal} {k : Int} (h : d.exponent ≤ k) :
    d.adjusted ≤ k ↔ |d.toRat| < 10 ^ (k + 1) := by
  rcases Nat.eq_zero_or_pos d.coefficient with hzero | hpos
  · have hadjusted : d.adjusted = d.exponent := by
      have hcount : d.digitCount = 1 := by
        rw [digitCount, hzero, Digits.ofNat_of_lt (by norm_num)]
        rfl
      rw [adjusted, hcount]
      omega
    have hsize := ten_zpow_pos (k + 1)
    rw [abs_toRat, hzero, Nat.cast_zero, zero_mul]
    exact iff_of_true (hadjusted ▸ h) hsize
  · obtain ⟨hlow, hhigh⟩ := Double.adjusted_bounds hpos
    constructor
    · intro hle
      exact hhigh.trans_le (zpow_le_zpow_right₀ (by norm_num) (by omega))
    · intro hlt
      have := (zpow_lt_zpow_iff_right₀ (by norm_num)).1 (hlow.trans_lt hlt)
      omega

theorem abs_toRat_lt (d : Decimal) : |d.toRat| < 10 ^ (d.adjusted + 1) := by
  have hpos := d.digitCount_pos
  refine (adjusted_le_iff ?_).1 le_rfl
  simp only [adjusted]
  omega

/-! ## Rounded quotients -/

/-- A fraction rounded half up. The sign of the lower number goes over to the upper one. -/
theorem halfUp_fraction {num den : Int} {x : ℚ} {places : Nat} (hden : den ≠ 0)
    (hvalue : (num : ℚ) / den = x * 10 ^ places) :
    (⟨decide ((if den < 0 then -num else num) < 0),
      divHalfUp (if den < 0 then -num else num).natAbs den.natAbs, -places⟩ : Decimal) =
      ⟨decide (x < 0), halfUp (|x| * 10 ^ (places : Int)), -places⟩ := by
  have hpow : (0 : ℚ) < 10 ^ places := by positivity
  have hpos : 0 < den.natAbs := Int.natAbs_pos.2 hden
  have hposq : (0 : ℚ) < den.natAbs := by exact_mod_cast hpos
  have hupper : (((if den < 0 then -num else num : Int)) : ℚ) = x * 10 ^ places * den.natAbs := by
    have hdenq : (den : ℚ) ≠ 0 := by exact_mod_cast hden
    rw [Nat.cast_natAbs, Int.cast_abs, ← hvalue]
    split
    · rename_i hneg
      rw [abs_of_neg (by exact_mod_cast hneg)]
      push_cast
      field_simp
    · rename_i hnonneg
      rw [abs_of_nonneg (by exact_mod_cast not_lt.1 hnonneg)]
      field_simp
  generalize (if den < 0 then -num else num) = upper at hupper
  have hsign : upper < 0 ↔ x < 0 := by
    have hcast : upper < 0 ↔ (upper : ℚ) < 0 := by norm_cast
    rw [hcast, hupper, mul_assoc, mul_neg_iff]
    have := mul_pos hpow hposq
    constructor
    · rintro (⟨-, h⟩ | ⟨h, -⟩)
      · exact absurd h this.not_gt
      · exact h
    · exact fun h => .inr ⟨h, this⟩
  have hsize : |x| * 10 ^ (places : Int) = (upper.natAbs : ℚ) / den.natAbs := by
    rw [Nat.cast_natAbs upper, Int.cast_abs, hupper, abs_mul, abs_mul, abs_of_pos hpow,
      abs_of_pos hposq, zpow_natCast]
    field_simp
  rw [hsize, halfUp_div _ hpos, decide_eq_decide.2 hsign]

/-- A quotient of numbers of either sign, rounded. -/
theorem divideHalfUp_eq_abs (a : Decimal) {b : Decimal} (hb : b.toRat ≠ 0) (places : Nat) :
    a.divideHalfUp b places = ⟨decide (a.toRat / b.toRat < 0),
      halfUp (|a.toRat / b.toRat| * 10 ^ (places : Int)), -places⟩ := by
  obtain ⟨hk, hm⟩ := ratio_spec a
  obtain ⟨hl, hn⟩ := ratio_spec b
  have hkq : (0 : ℚ) < a.ratio.2 := by exact_mod_cast hk
  have hlq : (0 : ℚ) < b.ratio.2 := by exact_mod_cast hl
  have hn0 : b.ratio.1 ≠ 0 := by
    intro h
    rw [h, Int.cast_zero, zero_div] at hn
    exact hb hn.symm
  have hden : (a.ratio.2 : Int) * b.ratio.1 ≠ 0 := mul_ne_zero (by exact_mod_cast hk.ne') hn0
  have hvalue : ((a.ratio.1 * b.ratio.2 * pow10 places : Int) : ℚ) /
      ((a.ratio.2 * b.ratio.1 : Int) : ℚ) = a.toRat / b.toRat * 10 ^ places := by
    rw [← hm, ← hn]
    push_cast
    rw [pow10_eq]
    field_simp
  exact halfUp_fraction hden hvalue

theorem toRat_divideHalfUp (a : Decimal) {b : Decimal} (hb : b.toRat ≠ 0) (places : Nat) :
    (a.divideHalfUp b places).toRat = awayFromZero (a.toRat / b.toRat) places := by
  rw [a.divideHalfUp_eq_abs hb, toRat_halfUp]
  intro _
  rw [decide_eq_true_eq]

/-! ## The working precision -/

/-- The precision in which a decimal is rounded to places. -/
def workingPrecision (d : Decimal) (places : Int) : Nat :=
  (DecimalValue.finite d).workingPrecision places

/-- The exponent to which a decimal is brought when it is rounded to places. -/
def workingExponent (d : Decimal) (places : Int) : Int :=
  max (-places) (minExponent (d.workingPrecision places))

/-- A decimal that a calculation can be handed: its exponent and the place of its first digit are
within the bounds in force. -/
structure WithinBounds (d : Decimal) : Prop where
  low : minExponent defaultPrecision ≤ d.exponent
  high : d.adjusted ≤ maxAdjusted

section

variable {d : Decimal} {places : Int}

theorem le_workingPrecision (d : Decimal) (places : Int) :
    d.adjusted + places + 2 ≤ d.workingPrecision places ∧ 28 ≤ d.workingPrecision places := by
  simp only [workingPrecision, DecimalValue.workingPrecision, DecimalValue.adjusted,
    defaultPrecision]
  omega

theorem WithinBounds.le_adjusted (h : d.WithinBounds) : -1000026 ≤ d.adjusted := by
  have hlow := h.low
  have hpos := d.digitCount_pos
  simp only [minExponent, minAdjusted, defaultPrecision, adjusted] at *
  omega

theorem neg_places_le_workingExponent (d : Decimal) (places : Int) :
    -places ≤ d.workingExponent places :=
  le_max_left _ _

theorem minExponent_le_workingExponent (d : Decimal) (places : Int) :
    minExponent (d.workingPrecision places) ≤ d.workingExponent places :=
  le_max_right _ _

/-- **The working precision has room** for the digits at the working exponent, and for one more. -/
theorem room_workingExponent (d : Decimal) (places : Int) :
    d.digitCount + (d.exponent - d.workingExponent places) + 1 ≤ d.workingPrecision places := by
  obtain ⟨hroom, -⟩ := d.le_workingPrecision places
  have hexponent := d.neg_places_le_workingExponent places
  simp only [adjusted] at hroom
  omega

/-- **The rounded coefficient fits**, with the digit that a carry may add. -/
theorem digitCount_atExponent_le (d : Decimal) (places : Int) :
    (d.atExponent (d.workingExponent places)).digitCount ≤ d.workingPrecision places := by
  obtain ⟨hroom, hleast⟩ := d.le_workingPrecision places
  have hexponent := d.neg_places_le_workingExponent places
  generalize d.workingPrecision places = precision at *
  generalize d.workingExponent places = e at *
  obtain ⟨k, rfl⟩ : ∃ k, precision = k + 1 := ⟨precision - 1, by omega⟩
  have hpow := ten_zpow_pos e
  have hsize : |d.toRat| / 10 ^ e ≤ 10 ^ k := by
    rw [div_le_iff₀ hpow, ← zpow_natCast, ← ten_zpow_add]
    exact d.abs_toRat_lt.le.trans (zpow_le_zpow_right₀ (by norm_num) (by push_cast at *; omega))
  have hcoefficient : (halfUp (|d.toRat| / 10 ^ e) : ℚ) < pow10 (k + 1) := by
    have hfloor := halfUp_le (x := |d.toRat| / 10 ^ e) (by positivity)
    have hone : (1 : ℚ) ≤ 10 ^ k := one_le_pow₀ (by norm_num)
    rw [pow10_eq, pow_succ]
    linarith
  rw [atExponent_eq_abs]
  exact Digits.length_ofNat_le (Nat.succ_pos k) (by exact_mod_cast hcoefficient)

theorem quantum_workingPrecision (h : d.WithinBounds) (hplaces : -places ≤ maxAdjusted) :
    quantum (d.workingPrecision places) places = .ok (d.workingExponent places) := by
  obtain ⟨hroom, hleast⟩ := d.le_workingPrecision places
  have hadjusted := h.le_adjusted
  unfold quantum
  rw [if_neg, if_neg (not_lt.2 hplaces)]
  · rfl
  · simp only [maxAdjusted] at *
    omega

theorem workingExponent_le (hplaces : -places ≤ maxAdjusted) :
    d.workingExponent places ≤ maxAdjusted := by
  obtain ⟨-, hleast⟩ := d.le_workingPrecision places
  refine max_le hplaces ?_
  simp only [minExponent, minAdjusted, maxAdjusted]
  omega

/-- The least exponent of the precision is not above that of the decimal. -/
theorem minExponent_workingPrecision_le (h : d.WithinBounds) (places : Int) :
    minExponent (d.workingPrecision places) ≤ d.exponent := by
  obtain ⟨-, hprecision⟩ := d.le_workingPrecision places
  have hlow := h.low
  simp only [minExponent, defaultPrecision] at *
  omega

/-- **At the working exponent the decimal is the rounded number.** -/
theorem toRat_atExponent_workingExponent (h : d.WithinBounds) :
    (d.atExponent (d.workingExponent places)).toRat = awayFromZero d.toRat places := by
  rcases le_total (minExponent (d.workingPrecision places)) (-places) with hreached | hleast
  · rw [workingExponent, max_eq_left hreached, toRat_atExponent_neg]
  · have hle := minExponent_workingPrecision_le h places
    rw [workingExponent, max_eq_right hleast, toRat_atExponent_of_le hle,
      awayFromZero_of_le (hleast.trans hle)]

/-- The decimal is brought to the working exponent unless what it is rounded to is out of bounds. -/
theorem quantize_workingExponent (h : d.WithinBounds) (hplaces : -places ≤ maxAdjusted) :
    d.quantize (d.workingPrecision places) (d.workingExponent places) =
      if |awayFromZero d.toRat places| < 10 ^ (maxAdjusted + 1) then
        .ok (d.atExponent (d.workingExponent places))
      else .error .undefinedDecimal := by
  have hexponent := workingExponent_le (d := d) hplaces
  have hleast := d.minExponent_le_workingExponent places
  have hroom := d.room_workingExponent places
  have hfits : (d.atExponent (d.workingExponent places)).adjusted ≤ maxAdjusted ↔
      |awayFromZero d.toRat places| < 10 ^ (maxAdjusted + 1) := by
    rw [adjusted_le_iff (by rwa [exponent_atExponent]), toRat_atExponent_workingExponent h]
  split
  · rename_i hinside
    exact quantize_eq hexponent hleast (by omega) (hfits.2 hinside)
  · rename_i hbeyond
    have hnonzero : ¬ d.isZero = true := by
      intro hzero
      apply hbeyond
      rw [d.isZero_iff.1 hzero, awayFromZero, sign_zero]
      simpa using ten_zpow_pos (maxAdjusted + 1)
    have hadjusted := not_le.1 (mt hfits.1 hbeyond)
    unfold quantize
    simp only [Bool.or_eq_true, decide_eq_true_eq]
    rw [if_neg (by omega), if_neg hnonzero, if_neg (by omega), if_pos (.inl hadjusted)]

end

end Decimal

/-! ## The same number -/

/-- A number this far below one becomes a zero. -/
theorem Double.ofDecimal_of_small {d : Decimal} (hne : d.toRat ≠ 0)
    (h : |d.toRat| < 10 ^ (-400 : Int)) : ofDecimal d = if d.toRat < 0 then -0 else 0 := by
  have hzero : ¬ d.isZero = true := mt d.isZero_iff.1 hne
  have hpos : 0 < d.coefficient := Nat.pos_of_ne_zero (by simpa [Decimal.isZero] using hzero)
  have hadjusted : d.adjusted < -400 :=
    (zpow_lt_zpow_iff_right₀ (by norm_num)).1 ((adjusted_bounds hpos).1.trans_lt h)
  unfold ofDecimal
  simp only
  rw [if_neg hzero, if_neg (show ¬ 400 < d.adjusted by omega), if_pos hadjusted]
  exact if_congr (Decimal.negative_iff hne) rfl rfl

/-- **Rounding is rounding the quotient by one.** -/
theorem Number.ofDecimal_divideHalfUp_one {d : Decimal} (h : d.WithinBounds) (places : Nat) :
    ofDecimal (d.divideHalfUp (Decimal.ofInt 1) places) =
      ofDecimal (d.atExponent (d.workingExponent places)) := by
  have hone : (Decimal.ofInt 1).toRat = 1 := by rw [Decimal.toRat_ofInt, Int.cast_one]
  have hquotient := d.divideHalfUp_eq_abs (hone ▸ one_ne_zero) places
  have hrounded : (d.atExponent (d.workingExponent places)).toRat = awayFromZero d.toRat places :=
    Decimal.toRat_atExponent_workingExponent h
  have hvalue := d.toRat_divideHalfUp (hone ▸ one_ne_zero) places
  rw [hone, div_one] at hquotient hvalue
  by_cases hwhole : ∃ i : Int, awayFromZero d.toRat places = i
  · obtain ⟨i, hi⟩ := hwhole
    rw [ofDecimal_of_whole (hvalue.trans hi), ofDecimal_of_whole (hrounded.trans hi)]
  have hne : d.toRat ≠ 0 := by
    intro hzero
    exact hwhole ⟨0, by rw [hzero, awayFromZero, sign_zero]; simp⟩
  rcases le_or_gt (minExponent (d.workingPrecision places)) (-places) with hreached | hleast
  · have hsame : d.divideHalfUp (Decimal.ofInt 1) places =
        d.atExponent (d.workingExponent places) := by
      have hsign : decide (d.toRat < 0) = d.negative := by
        rw [Bool.eq_iff_iff, decide_eq_true_eq, Decimal.negative_iff hne]
      rw [hquotient, Decimal.workingExponent, max_eq_left hreached, Decimal.atExponent_eq_abs,
        zpow_neg, div_inv_eq_mul, hsign]
    rw [hsame]
  · -- the exponents differ, but then the number is too small for a double
    obtain ⟨hroom, hprecision⟩ := d.le_workingPrecision places
    have hadjusted : d.adjusted + 1 ≤ -400 := by
      simp only [minExponent, minAdjusted] at hleast
      omega
    have hkeeps : awayFromZero d.toRat places = d.toRat :=
      Decimal.awayFromZero_of_le
        (hleast.le.trans (Decimal.minExponent_workingPrecision_le h places))
    have hsmall : |d.toRat| < 10 ^ (-400 : Int) :=
      d.abs_toRat_lt.trans_le (zpow_le_zpow_right₀ (by norm_num) hadjusted)
    rw [not_exists] at hwhole
    have hzero {r : Decimal} (hr : r.toRat = awayFromZero d.toRat places) :
        ofDecimal r = .float (if d.toRat < 0 then -0 else 0) := by
      have hsame : r.toRat = d.toRat := hr.trans hkeeps
      rw [ofDecimal_of_not_whole fun i => hr ▸ hwhole i,
        Double.ofDecimal_of_small (hsame ▸ hne) (hsame ▸ hsmall), hsame]
    rw [hzero hvalue, hzero hrounded]

/-! ## Main result -/

theorem DecimalValue.roundHalfUp_finite (d : Decimal) (places : Int) :
    (finite d).roundHalfUp places =
      if maxPrecision < d.workingPrecision places then
        .error (.precisionTooLarge (d.workingPrecision places))
      else (do
        let e ← Decimal.quantum (d.workingPrecision places) places
        let rounded ← (d.quantize (d.workingPrecision places) e).map finite
        Number.ofValue rounded) :=
  rfl

theorem DecimalValue.divideHalfUp_finite (a : Decimal) {b : Decimal} (hb : b.isZero = false)
    (places : Nat) :
    (finite a).divideHalfUp (finite b) places =
      if Digits.maxLength < (a.divideHalfUp b places).digitCount then .error .nanFraction
      else .ok (Number.ofDecimal (a.divideHalfUp b places)) := by
  simp only [divideHalfUp, finite?, bind, Except.bind]
  rw [if_pos (Int.natCast_nonneg places), hb, if_neg Bool.false_ne_true, Int.toNat_natCast]

/-- The quotient by one as a number, unless it is too long to be written. -/
theorem DecimalValue.divideHalfUp_one {d : Decimal} (h : d.WithinBounds) {places : Int}
    (hplaces : 0 ≤ places) :
    (finite d).divideHalfUp (Number.int 1).exact places =
      if halfUp (|d.toRat| * 10 ^ places) < pow10 Digits.maxLength then
        .ok (Number.ofDecimal (d.atExponent (d.workingExponent places)))
      else .error .nanFraction := by
  obtain ⟨n, rfl⟩ := Int.eq_ofNat_of_zero_le hplaces
  have hone : (Decimal.ofInt 1).toRat = 1 := by rw [Decimal.toRat_ofInt, Int.cast_one]
  have hquotient := d.divideHalfUp_eq_abs (hone ▸ one_ne_zero) n
  rw [hone, div_one] at hquotient
  have hlength : Digits.maxLength < (d.divideHalfUp (Decimal.ofInt 1) n).digitCount ↔
      ¬ halfUp (|d.toRat| * 10 ^ (n : Int)) < pow10 Digits.maxLength := by
    rw [hquotient, Decimal.digitCount, ← not_le, Digits.length_ofNat_le_iff (by decide)]
  rw [Number.exact, divideHalfUp_finite d (by decide), Number.ofDecimal_divideHalfUp_one h]
  simp only [hlength, ite_not]

/-- Rounding brings a decimal to the working exponent. -/
theorem DecimalValue.roundHalfUp_eq {d : Decimal} (h : d.WithinBounds) {places : Int}
    (hplaces : -places ≤ maxAdjusted) :
    (finite d).roundHalfUp places =
      if maxPrecision < d.workingPrecision places then
        .error (.precisionTooLarge (d.workingPrecision places))
      else if |awayFromZero d.toRat places| < 10 ^ (maxAdjusted + 1) then
        .ok (Number.ofDecimal (d.atExponent (d.workingExponent places)))
      else .error .undefinedDecimal := by
  rw [roundHalfUp_finite, Decimal.quantum_workingPrecision h hplaces]
  split
  · rfl
  change (d.quantize (d.workingPrecision places) (d.workingExponent places)).map finite >>=
    Number.ofValue = _
  rw [Decimal.quantize_workingExponent h hplaces]
  split <;> rfl

/-- **Rounding to places is exact.** A decimal within the bounds has an exponent at which the
working precision has room for its digits, before and after they are rounded. What it is brought to
there is the nearest multiple of the unit, a half going away from zero; unless that is beyond the
bounds, or the working precision is more than a calculation can have, it is the number rounded to. For
places after the point the quotient by one is rounded to the same, unless it has too many digits to be
written in units of the last place. -/
theorem places_rounding_exact {d : Decimal} {places : Int} (h : d.WithinBounds)
    (hplaces : -places ≤ maxAdjusted) :
    ∃ e r, Decimal.quantum (d.workingPrecision places) places = .ok e ∧
      d.digitCount + (d.exponent - e) ≤ d.workingPrecision places ∧
      r.digitCount ≤ d.workingPrecision places ∧
      r.toRat = awayFromZero d.toRat places ∧
      (if |awayFromZero d.toRat places| < 10 ^ (maxAdjusted + 1) then
        d.quantize (d.workingPrecision places) e = .ok r ∧
          (DecimalValue.finite d).roundHalfUp places =
            if maxPrecision < d.workingPrecision places then
              .error (.precisionTooLarge (d.workingPrecision places))
            else .ok (Number.ofDecimal r)
      else
        d.quantize (d.workingPrecision places) e = .error .undefinedDecimal ∧
          (DecimalValue.finite d).roundHalfUp places =
            if maxPrecision < d.workingPrecision places then
              .error (.precisionTooLarge (d.workingPrecision places))
            else .error .undefinedDecimal) ∧
      (0 ≤ places → (DecimalValue.finite d).divideHalfUp (Number.int 1).exact places =
        if halfUp (|d.toRat| * 10 ^ places) < pow10 Digits.maxLength then .ok (Number.ofDecimal r)
        else .error .nanFraction) := by
  have hroom := d.room_workingExponent places
  have hquantize := Decimal.quantize_workingExponent h hplaces
  have hround := DecimalValue.roundHalfUp_eq h hplaces
  refine ⟨_, d.atExponent (d.workingExponent places),
    Decimal.quantum_workingPrecision h hplaces, by omega, d.digitCount_atExponent_le places,
    Decimal.toRat_atExponent_workingExponent h, ?_, DecimalValue.divideHalfUp_one h⟩
  split at hquantize
  · rename_i hfits
    rw [if_pos hfits] at hround ⊢
    exact ⟨hquantize, hround⟩
  · rename_i hbeyond
    rw [if_neg hbeyond] at hround ⊢
    exact ⟨hquantize, hround⟩

/-- A half less than zero that a carry takes to another digit: -9.995 becomes -10. -/
theorem places_rounding_exact_carry :
    (⟨true, 9995, -3⟩ : Decimal).WithinBounds ∧ -2 ≤ maxAdjusted ∧
      ∃ r : Decimal, r.toRat = -10 ∧
        (DecimalValue.finite ⟨true, 9995, -3⟩).roundHalfUp 2 = .ok (Number.ofDecimal r) ∧
        (DecimalValue.finite ⟨true, 9995, -3⟩).divideHalfUp (Number.int 1).exact 2 =
          .ok (Number.ofDecimal r) := by
  have hbounds : (⟨true, 9995, -3⟩ : Decimal).WithinBounds := ⟨by decide, by decide +kernel⟩
  have hplaces : -2 ≤ maxAdjusted := by decide
  have hrounded : halfUp (|(⟨true, 9995, -3⟩ : Decimal).toRat| * 10 ^ (2 : Int)) = 1000 := by
    have hsize : |(⟨true, 9995, -3⟩ : Decimal).toRat| * 10 ^ (2 : Int) =
        ((1999 : Nat) : ℚ) / (2 : Nat) := by
      rw [Decimal.abs_toRat]
      norm_num
    rw [hsize, halfUp_div _ (by decide)]
    decide
  have hvalue : awayFromZero (⟨true, 9995, -3⟩ : Decimal).toRat 2 = -10 := by
    have hneg : (⟨true, 9995, -3⟩ : Decimal).toRat < 0 := by
      rw [Decimal.toRat_signed_mk]
      norm_num
    rw [awayFromZero_eq, hrounded, sign_neg hneg]
    norm_num
  have hfar : |(-10 : ℚ)| < 10 ^ (maxAdjusted + 1) := by
    rw [abs_neg, abs_of_pos (by norm_num), ← zpow_one (10 : ℚ), ← zpow_mul, one_mul]
    exact zpow_lt_zpow_right₀ (by norm_num) (by decide)
  obtain ⟨e, r, -, -, -, hr, hfits, hquotient⟩ := places_rounding_exact hbounds hplaces
  rw [hvalue] at hr hfits
  have hprecision : ¬ maxPrecision < (⟨true, 9995, -3⟩ : Decimal).workingPrecision 2 := by
    decide +kernel
  rw [if_pos hfar, if_neg hprecision] at hfits
  have hshort : 1000 < pow10 Digits.maxLength := by decide +kernel
  rw [hrounded, if_pos hshort] at hquotient
  exact ⟨hbounds, hplaces, r, hr, hfits.2, hquotient (by decide)⟩

/-- One is rounded to as many places as an integer may have digits, but its quotient by one is a
digit longer in units of the last place. -/
theorem quotient_too_long_to_write :
    (⟨false, 1, 0⟩ : Decimal).WithinBounds ∧ -(Digits.maxLength : Int) ≤ maxAdjusted ∧
      (DecimalValue.finite ⟨false, 1, 0⟩).roundHalfUp Digits.maxLength = .ok (.int 1) ∧
      (DecimalValue.finite ⟨false, 1, 0⟩).divideHalfUp (Number.int 1).exact Digits.maxLength =
        .error .nanFraction := by
  have hbounds : (⟨false, 1, 0⟩ : Decimal).WithinBounds := ⟨by decide, by decide +kernel⟩
  have hplaces : -(Digits.maxLength : Int) ≤ maxAdjusted := by decide
  have hone : (⟨false, 1, 0⟩ : Decimal).toRat = 1 := by
    rw [Decimal.toRat_mk]
    norm_num
  have hrounded : awayFromZero (⟨false, 1, 0⟩ : Decimal).toRat Digits.maxLength = 1 :=
    (Decimal.awayFromZero_of_le (by decide)).trans hone
  refine ⟨hbounds, hplaces, ?_, ?_⟩
  · have hsmall : |(1 : ℚ)| < 10 ^ (maxAdjusted + 1) := by
      rw [abs_one]
      exact one_lt_zpow₀ (by norm_num) (by decide)
    have hvalue : (Decimal.atExponent (Decimal.workingExponent ⟨false, 1, 0⟩ Digits.maxLength)
        ⟨false, 1, 0⟩).toRat = _ := Decimal.toRat_atExponent_workingExponent hbounds
    have hprecision :
        ¬ maxPrecision < (⟨false, 1, 0⟩ : Decimal).workingPrecision Digits.maxLength := by
      decide +kernel
    rw [DecimalValue.roundHalfUp_eq hbounds hplaces, if_neg hprecision, hrounded, if_pos hsmall,
      Number.ofDecimal_of_whole (i := 1) (by rw [hvalue, hrounded, Int.cast_one])]
  · have hsize : |(⟨false, 1, 0⟩ : Decimal).toRat| * 10 ^ (Digits.maxLength : Int) =
        (pow10 Digits.maxLength : Nat) := by
      rw [hone, abs_one, one_mul, zpow_natCast, pow10_eq]
    rw [DecimalValue.divideHalfUp_one hbounds (by decide), hsize, halfUp_natCast,
      if_neg (lt_irrefl _)]

end Longhand
