import Longhand.Digits.Value
import Longhand.Numeral
import Mathlib.Algebra.Order.Field.Power
import Mathlib.Tactic.FieldSimp
import Mathlib.Tactic.Linarith
import Mathlib.Tactic.Positivity
import Mathlib.Tactic.Ring
/-!
# The number that a decimal denotes

`Decimal.toRat` is the number itself, so that calculations on coefficients and exponents can be
compared with calculations on numbers. A numeral is written at the exponent that its fraction asks
for, and moving its point multiplies the number: `toRat_numeral`, `toRat_shiftPoint`.
-/

namespace Longhand

theorem pow10_eq (n : Nat) : (pow10 n : ℚ) = 10 ^ n := by
  have h : pow10 n = 10 ^ n := rfl
  rw [h]; push_cast; rfl

/-- A power of ten with a whole exponent that is not negative. -/
theorem pow10_toNat {e : Int} (h : 0 ≤ e) : (pow10 e.toNat : ℚ) = 10 ^ e := by
  rw [pow10_eq, ← zpow_natCast, Int.toNat_of_nonneg h]

namespace Decimal

def toRat (d : Decimal) : ℚ :=
  d.signed * 10 ^ d.exponent

theorem ten_zpow_pos (e : Int) : (0 : ℚ) < 10 ^ e :=
  zpow_pos (by norm_num) e

theorem ten_zpow_add (a b : Int) : (10 : ℚ) ^ (a + b) = 10 ^ a * 10 ^ b :=
  zpow_add₀ (by norm_num) a b

theorem toRat_ofScaled (n e : Int) : (ofScaled n e).toRat = n * 10 ^ e := by
  have h : (ofScaled n e).signed = n := by
    simp only [ofScaled, signed, decide_eq_true_eq]
    split <;> omega
  rw [toRat, h]; rfl

/-- The signed coefficient at a lower exponent denotes the same number there. -/
theorem scaledTo_mul {d : Decimal} {e : Int} (h : e ≤ d.exponent) :
    (d.scaledTo e : ℚ) * 10 ^ e = d.toRat := by
  have he : (pow10 (d.exponent - e).toNat : ℚ) = 10 ^ (d.exponent - e) := pow10_toNat (by omega)
  simp only [scaledTo, toRat, Int.cast_mul, Int.cast_natCast, he]
  rw [mul_assoc, ← ten_zpow_add, sub_add_cancel]

theorem toRat_add (a b : Decimal) : (a + b).toRat = a.toRat + b.toRat := by
  show (add a b).toRat = _
  rw [add, toRat_ofScaled, ← scaledTo_mul (min_le_left a.exponent b.exponent),
    ← scaledTo_mul (min_le_right a.exponent b.exponent)]
  push_cast; ring

theorem toRat_neg (d : Decimal) : (-d).toRat = -d.toRat := by
  show (neg d).toRat = _
  by_cases h : d.negative = true <;> simp [toRat, neg, signed, h]

theorem toRat_sub (a b : Decimal) : (a - b).toRat = a.toRat - b.toRat := by
  show (a + -b).toRat = _
  rw [toRat_add, toRat_neg, sub_eq_add_neg]

/-- The order of decimals is that of the numbers they denote. -/
theorem lt_iff (a b : Decimal) : a.lt b = true ↔ a.toRat < b.toRat := by
  let e := min a.exponent b.exponent
  have ha : (a.scaledTo e : ℚ) * 10 ^ e = a.toRat := scaledTo_mul (min_le_left ..)
  have hb : (b.scaledTo e : ℚ) * 10 ^ e = b.toRat := scaledTo_mul (min_le_right ..)
  have hpos := ten_zpow_pos e
  rw [lt, decide_eq_true_eq, ← ha, ← hb, mul_lt_mul_iff_left₀ hpos]
  exact Int.cast_lt.symm

theorem signed_natAbs (d : Decimal) : |(d.signed : ℚ)| = d.coefficient := by
  unfold signed
  split <;> simp

/-- The size of a decimal. -/
theorem abs_toRat (d : Decimal) : |d.toRat| = d.coefficient * 10 ^ d.exponent := by
  rw [toRat, abs_mul, signed_natAbs, abs_of_pos (ten_zpow_pos _)]

theorem natAbs_signed (d : Decimal) : d.signed.natAbs = d.coefficient := by
  unfold signed
  split <;> simp

theorem isNegative_iff (d : Decimal) : d.isNegative = true ↔ d.toRat < 0 := by
  have hp := ten_zpow_pos d.exponent
  have hn : d.toRat < 0 ↔ d.signed < 0 := by
    rw [toRat, mul_neg_iff]
    simp [hp, not_lt.2 hp.le]
  rw [hn, isNegative, isZero, signed]
  by_cases h : d.negative = true
  · simp [h, Nat.pos_iff_ne_zero]
  · simp [h]

theorem isZero_iff (d : Decimal) : d.isZero = true ↔ d.toRat = 0 := by
  have hp := (ten_zpow_pos d.exponent).ne'
  rw [toRat, mul_eq_zero, isZero, signed]
  by_cases h : d.negative = true <;> simp [h, hp]

/-- A decimal without a sign. -/
theorem toRat_mk (n : Nat) (e : Int) : (⟨false, n, e⟩ : Decimal).toRat = n * 10 ^ e := by
  simp [toRat, signed]

/-- A decimal with a sign. -/
theorem toRat_signed_mk (negative : Bool) (n : Nat) (e : Int) :
    (⟨negative, n, e⟩ : Decimal).toRat = (if negative then -1 else 1) * n * 10 ^ e := by
  cases negative <;> simp [toRat, signed]

theorem toRat_mk_nonneg (coefficient : Nat) (exponent : Int) :
    0 ≤ (⟨false, coefficient, exponent⟩ : Decimal).toRat := by
  rw [toRat_mk]
  exact mul_nonneg (Nat.cast_nonneg _) (ten_zpow_pos _).le

end Decimal

/-! ## Numerals -/

namespace Digits

/-- What a trimmed string lacks are zeros. -/
theorem trimEnd_append_zeros (ds : List Digit) :
    trimEnd ds ++ zeros (ds.length - (trimEnd ds).length) = ds := by
  have h : ds.reverse.takeWhile (· = 0) = zeros (ds.reverse.takeWhile (· = 0)).length :=
    List.eq_replicate_iff.2 ⟨rfl, fun d hd => by simpa using List.all_eq_true.1 List.all_takeWhile d hd⟩
  have hl := congrArg List.length (ds.reverse.takeWhile_append_dropWhile (p := (· = 0)))
  have hn : ds.length - (trimEnd ds).length = (ds.reverse.takeWhile (· = 0)).length := by
    simp only [trimEnd, List.length_reverse, List.length_append] at hl ⊢
    omega
  have hr := congrArg List.reverse (ds.reverse.takeWhile_append_dropWhile (p := (· = 0)))
  rw [List.reverse_append, List.reverse_reverse] at hr
  rw [hn, trimEnd]
  conv => rhs; rw [← hr, h]
  simp [zeros]

theorem length_trimEnd_le (ds : List Digit) : (trimEnd ds).length ≤ ds.length := by
  have h := congrArg List.length (trimEnd_append_zeros ds)
  rw [List.length_append] at h
  omega

theorem value_append_zeros (ds : List Digit) (n : Nat) :
    value (ds ++ zeros n) = value ds * pow10 n := by
  rw [value_append, value_zeros, length_zeros, Nat.add_zero]

theorem normalize_ne_nil (ds : List Digit) : normalize ds ≠ [] := by
  unfold normalize
  split <;> simp

theorem normalize_zero_cons (ds : List Digit) : normalize (0 :: ds) = normalize ds := by
  simp [normalize]

theorem normalize_cons_of_ne {d : Digit} (h : d ≠ 0) (ds : List Digit) :
    normalize (d :: ds) = d :: ds := by
  simp [normalize, h]

theorem length_normalize_le {ds : List Digit} (h : ds ≠ []) :
    (normalize ds).length ≤ ds.length := by
  unfold normalize
  split
  · exact List.length_pos_iff.2 h
  · rename_i hdrop
    rw [← hdrop]
    exact (List.dropWhile_suffix _).length_le

theorem ofNat_ne_nil (n : Nat) : ofNat n ≠ [] := by
  rw [← normalize_ofNat]
  exact normalize_ne_nil _

theorem lt_pow10_length (n : Nat) : n < pow10 (ofNat n).length := by
  have h := value_lt (ofNat n)
  rwa [value_ofNat] at h

/-- A number below a power of ten has at most so many digits. -/
theorem length_ofNat_le {n k : Nat} (hk : 0 < k) (h : n < pow10 k) : (ofNat n).length ≤ k := by
  have hlen : (ofNatPadded k n).length = k := length_ofNatPadded k n
  have hne : ofNatPadded k n ≠ [] := by
    rw [← List.length_pos_iff, hlen]
    exact hk
  have hvalue : value (ofNatPadded k n) = n := by
    rw [value_ofNatPadded, Nat.mod_eq_of_lt h]
  calc (ofNat n).length
      = (normalize (ofNatPadded k n)).length := by rw [← ofNat_value, hvalue]
    _ ≤ k := (length_normalize_le hne).trans hlen.le

theorem length_ofNat_le_iff {n k : Nat} (hk : 0 < k) : (ofNat n).length ≤ k ↔ n < pow10 k :=
  ⟨fun h => (lt_pow10_length n).trans_le (Nat.pow_le_pow_right (by norm_num) h),
    length_ofNat_le hk⟩

/-- A number other than zero has no digit too many. -/
theorem pow10_length_le {n : Nat} (h : n ≠ 0) : pow10 ((ofNat n).length - 1) ≤ n := by
  by_contra hlt
  rcases Nat.eq_zero_or_pos ((ofNat n).length - 1) with hzero | hpos
  · rw [hzero, pow10_zero] at hlt
    omega
  · have hlen := length_ofNat_le hpos (not_le.1 hlt)
    omega

end Digits

namespace Numeral

def toRat (n : Numeral) : ℚ :=
  n.toDecimal.toRat

theorem toRat_eq (n : Numeral) :
    n.toRat = Digits.value n.scaled * 10 ^ (-(n.fraction.length : Int)) :=
  Decimal.toRat_mk _ _

/-- Zeros after the last digit make the number at a lower exponent. -/
theorem value_scaled_zeros (n : Numeral) (k : Nat) :
    (Digits.value (n.scaled ++ Digits.zeros k) : ℚ) = n.toRat * 10 ^ (n.fraction.length + k) := by
  rw [Digits.value_append_zeros, Nat.cast_mul, pow10_eq, toRat_eq, mul_assoc, zpow_neg,
    zpow_natCast, pow_add]
  field_simp

/-- Moving the point to the right multiplies by a power of ten. -/
theorem toRat_shiftPoint (n : Numeral) (places : Nat) :
    (n.shiftPoint places).toRat = n.toRat * 10 ^ places := by
  let moved := n.fraction.take places
  let rest := n.fraction.drop places
  let filled := Digits.zeros (places - moved.length)
  have hf : n.shiftPoint places = ⟨Digits.normalize (n.integer ++ moved ++ filled), rest⟩ := by
    simp [shiftPoint, cut, moved, rest, filled]
  have hl : moved.length + rest.length = n.fraction.length := by
    simp [moved, rest]; omega
  -- zeros are only filled in when no digit of the fraction is left
  have hs : n.integer ++ moved ++ filled ++ rest = n.scaled ++ filled := by
    by_cases h : places ≤ n.fraction.length
    · have hm : moved.length = places := by simp [moved, h]
      simp [filled, hm, Digits.zeros, scaled, moved, rest]
    · have hr : rest = [] := List.drop_of_length_le (by omega)
      have hm : moved = n.fraction := List.take_of_length_le (by omega)
      simp [hr, hm, scaled]
  have hv : Digits.value (n.shiftPoint places).scaled = Digits.value (n.scaled ++ filled) := by
    rw [hf, ← hs, scaled, Digits.value_append, Digits.value_normalize]
    exact (Digits.value_append _ _).symm
  have hp : n.fraction.length + (places - moved.length) = rest.length + places := by
    have hm : moved.length = min places n.fraction.length := List.length_take
    omega
  rw [toRat_eq, hv, value_scaled_zeros, hp, hf, pow_add, zpow_neg, zpow_natCast]
  field_simp

end Numeral

namespace Decimal

/-- The numeral of a decimal denotes its size. -/
theorem toRat_numeral (d : Decimal) : d.numeral.toRat = |d.toRat| := by
  rw [abs_toRat]
  by_cases he : 0 ≤ d.exponent
  · rw [numeral, if_pos he, Numeral.toRat_eq]
    simp [Numeral.scaled, Digits.value_ofNat, pow10_toNat he]
  · obtain ⟨places, hp⟩ : ∃ places : Nat, d.exponent = -(places : Int) := ⟨(-d.exponent).toNat, by omega⟩
    have hn : (-d.exponent).toNat = places := by omega
    rw [numeral, if_neg he]
    simp only [hn]
    generalize hf : Digits.trimEnd (Digits.ofNatPadded places (d.coefficient % pow10 places)) = f
    have hz := Digits.trimEnd_append_zeros (Digits.ofNatPadded places (d.coefficient % pow10 places))
    have hl := Digits.length_trimEnd_le (Digits.ofNatPadded places (d.coefficient % pow10 places))
    rw [hf, Digits.length_ofNatPadded] at hz hl
    have hv := Numeral.value_scaled_zeros ⟨Digits.ofNat (d.coefficient / pow10 places), f⟩
      (places - f.length)
    -- with the trimmed zeros back in place the digits spell the coefficient
    have hc : Digits.value (Digits.ofNat (d.coefficient / pow10 places) ++ f ++
        Digits.zeros (places - f.length)) = d.coefficient := by
      rw [List.append_assoc, hz, Digits.value_append, Digits.value_ofNat,
        Digits.value_ofNatPadded, Digits.length_ofNatPadded, Nat.mod_mod, Nat.div_add_mod']
    simp only [Numeral.scaled] at hv
    rw [hc, show f.length + (places - f.length) = places by omega] at hv
    rw [hv, hp, zpow_neg, zpow_natCast]
    field_simp

theorem toRat_numeral_of_nonneg {d : Decimal} (h : 0 ≤ d.toRat) : d.numeral.toRat = d.toRat := by
  rw [toRat_numeral, abs_of_nonneg h]

theorem numeral_integer_ne_nil (d : Decimal) : d.numeral.integer ≠ [] := by
  unfold numeral
  split <;> exact Digits.ofNat_ne_nil _

end Decimal

end Longhand
