import Longhand.Number.Rounding
import Longhand.Proofs.FiniteDoubles
/-!
# Finite doubles can be rounded

The decimal that a finite double is written as has at most seventeen digits or is `10 ^ 17`, and an
exponent within a few hundred (`Double.moderate_exact`). So it can be brought to any number of places
for which a decimal has an exponent (`Decimal.Moderate.roundHalfUp_eq`), and what comes out is an
integer or a finite double (`Decimal.Moderate.isFinite_atExponent`).
-/

namespace Longhand

namespace Double

/-! ## The parts of a finite double -/

theorem exponentField_eq (b : BitVec Float.Model.Format.binary64.numBits) :
    exponentField b = b.toNat / pow2 52 % pow2 11 := by
  simp [exponentField, Float.Model.UnpackedFloat.unpackExponent, Nat.shiftRight_eq_div_pow, pow2]

/-- The parts of a double other than infinities and what is no number. -/
theorem parts_of_isFinite {x : Float} (h : x.isFinite = true) :
    ∃ negative m q, parts x = .finite negative m q ∧ m < 2 ^ 53 ∧ -1074 ≤ q ∧ q ≤ 971 := by
  rw [isFinite_iff, exponentField_eq] at h
  change x.toBits.toNat / pow2 52 % pow2 11 ≠ 2047 at h
  have h11 : pow2 11 = 2048 := rfl
  have h52 : pow2 52 = 4503599627370496 := rfl
  have htail : x.toBits.toNat % pow2 52 < pow2 52 := Nat.mod_lt _ (by rw [h52]; norm_num)
  have hfield : x.toBits.toNat / pow2 52 % pow2 11 < pow2 11 := Nat.mod_lt _ (by rw [h11]; norm_num)
  unfold parts
  simp only
  generalize x.toBits.toNat / pow2 52 % pow2 11 = biased at *
  generalize x.toBits.toNat % pow2 52 = tail at *
  rw [h11, h52] at *
  rw [if_neg (by omega)]
  split
  · exact ⟨_, _, _, rfl, by omega, by decide, by decide⟩
  · refine ⟨_, _, _, rfl, by omega, ?_, ?_⟩ <;> simp only [minExponent] <;> omega

/-! ## The digits of a double -/

/-- The power of ten of the first digit of a fraction. -/
theorem lt_leadingPlace (num : Nat) {den : Nat} (hden : 0 < den) :
    (num : ℚ) < den * 10 ^ (leadingPlace num den + 1) := by
  let guess : Int := (Digits.ofNat num).length - (Digits.ofNat den).length
  have hguess : guess = guess.toNat - (-guess).toNat := by omega
  unfold leadingPlace
  change (num : ℚ) < den * 10 ^ ((if den * pow10 guess.toNat ≤ num * pow10 (-guess).toNat
    then guess else guess - 1) + 1)
  split
  · have hnum : (num : ℚ) < 10 ^ (Digits.ofNat num).length := by
      rw [← pow10_eq]
      exact_mod_cast Digits.lt_pow10_length num
    have hfirst : (10 : ℚ) ^ ((Digits.ofNat den).length - 1) ≤ den := by
      rw [← pow10_eq]
      exact_mod_cast Digits.pow10_length_le hden.ne'
    have hne : 0 < (Digits.ofNat den).length := List.length_pos_of_ne_nil (Digits.ofNat_ne_nil den)
    have hsplit : ((Digits.ofNat num).length : Int) =
        ((Digits.ofNat den).length - 1 : Nat) + (guess + 1) := by
      simp only [guess]
      omega
    rw [← zpow_natCast, hsplit, Decimal.ten_zpow_add, zpow_natCast] at hnum
    exact hnum.trans_le (mul_le_mul_of_nonneg_right hfirst (Decimal.ten_zpow_pos _).le)
  · rename_i hover
    have hlt : (num : ℚ) * pow10 (-guess).toNat < den * pow10 guess.toNat := by
      exact_mod_cast not_le.1 hover
    have hpow : (0 : ℚ) < 10 ^ (-guess).toNat := by positivity
    rw [sub_add_cancel, hguess, sub_eq_add_neg, Decimal.ten_zpow_add, zpow_neg, zpow_natCast,
      zpow_natCast, ← div_eq_mul_inv, ← mul_div_assoc, lt_div_iff₀ hpow]
    rwa [pow10_eq, pow10_eq] at hlt

theorem leadingPlace_bounds {num den : Nat} (hn : num < pow10 1100)
    (hd : den < pow10 1100) :
    -1101 ≤ leadingPlace num den ∧ leadingPlace num den ≤ 1100 := by
  have hnum : (Digits.ofNat num).length ≤ 1100 := Digits.length_ofNat_le (by norm_num) hn
  have hden : (Digits.ofNat den).length ≤ 1100 := Digits.length_ofNat_le (by norm_num) hd
  unfold leadingPlace
  simp only
  split <;> omega

/-- A neighbour on a grid has no more digits than the grid asks for. -/
theorem onGrid?_le {i : Interval} {k : Int} {n c : Nat} (hden : 0 < i.den)
    (hlt : (i.value : ℚ) < i.den * 10 ^ (k + n)) (h : i.onGrid? k = some c) : c ≤ 10 ^ n := by
  let d := i.value * pow10 (-k).toNat / (i.den * pow10 k.toNat)
  have hd : d < 10 ^ n := by
    have hk : k = k.toNat - (-k).toNat := by omega
    have hpow : (0 : ℚ) < 10 ^ (-k).toNat := by positivity
    have hcast : (i.value : ℚ) * pow10 (-k).toNat < 10 ^ n * (i.den * pow10 k.toNat) := by
      rw [hk, sub_eq_add_neg, add_right_comm, Decimal.ten_zpow_add, Decimal.ten_zpow_add, zpow_neg,
        zpow_natCast, zpow_natCast, zpow_natCast, ← div_eq_mul_inv, ← mul_div_assoc,
        lt_div_iff₀ hpow] at hlt
      rw [pow10_eq, pow10_eq]
      calc (i.value : ℚ) * 10 ^ (-k).toNat < i.den * (10 ^ k.toNat * 10 ^ n) := hlt
        _ = 10 ^ n * (i.den * 10 ^ k.toNat) := by ring
    have hunit : 0 < i.den * pow10 k.toNat := Nat.mul_pos hden (pow10_pos _)
    rw [Nat.div_lt_iff_lt_mul hunit]
    exact_mod_cast hcast
  have hc : c = d ∨ c = d + 1 := by
    unfold Interval.onGrid? at h
    simp only at h
    split at h
    · obtain rfl := Option.some.inj h
      split
      · exact .inl rfl
      · exact .inr rfl
    · split at h
      · exact .inl (Option.some.inj h).symm
      · split at h
        · exact .inr (Option.some.inj h).symm
        · simp at h
  omega

/-- Zeros at the end go over to the power of ten. -/
theorem stripZeros_spec (d : Nat) (k : Int) :
    ∃ n : Nat, (stripZeros d k).1 * pow10 n = d ∧ (stripZeros d k).2 = k + n ∧
      (n ≠ 0 → d ≠ 0) := by
  fun_induction stripZeros d k with
  | case1 d k h ih =>
    obtain ⟨n, hd, hk, -⟩ := ih
    refine ⟨n + 1, ?_, ?_, fun _ => h.1⟩
    · rw [pow10_succ, Nat.mul_left_comm, hd]
      omega
    · rw [hk]
      push_cast
      ring
  | case2 d k h => exact ⟨0, by simp [pow10_zero], by simp, by simp⟩

end Double

/-- A decimal of moderate size, as those are that doubles are written as. -/
structure Decimal.Moderate (d : Decimal) : Prop where
  coefficient_le : d.coefficient ≤ 10 ^ 17
  low : -1200 ≤ d.exponent
  high : d.exponent ≤ 1200

namespace Double

theorem moderate_stripZeros (negative : Bool) {d : Nat} {k : Int} (hd : d ≤ 10 ^ 17)
    (hlow : -1150 ≤ k) (hhigh : k ≤ 1150) :
    Decimal.Moderate ⟨negative, (stripZeros d k).1, (stripZeros d k).2⟩ := by
  obtain ⟨n, hvalue, hexponent, hzero⟩ := stripZeros_spec d k
  have hn : n ≤ 17 := by
    by_contra hmany
    have hpos : 0 < (stripZeros d k).1 := by
      rw [Nat.pos_iff_ne_zero]
      intro hnone
      rw [hnone, Nat.zero_mul] at hvalue
      exact hzero (by omega) hvalue.symm
    have hpow : 10 ^ 18 ≤ pow10 n := Nat.pow_le_pow_right (by norm_num) (by omega)
    have hle := Nat.le_mul_of_pos_left (pow10 n) hpos
    omega
  refine ⟨?_, ?_, ?_⟩
  · exact (Nat.le_mul_of_pos_right _ (pow10_pos n)).trans (hvalue.le.trans hd)
  · change -1200 ≤ (stripZeros d k).2
    omega
  · change (stripZeros d k).2 ≤ 1200
    omega

theorem two_pow_lt_pow10 {n k : Nat} (h : n < k) : 2 ^ n < pow10 k := by
  calc 2 ^ n ≤ 10 ^ n := Nat.pow_le_pow_left (by norm_num) n
    _ < 10 ^ k := Nat.pow_lt_pow_right (by norm_num) h

theorem moderate_shortest (negative : Bool) {m : Nat} {q : Int} (hm : m < 2 ^ 53) (hlow : -1074 ≤ q)
    (hhigh : q ≤ 971) : Decimal.Moderate ⟨negative, (shortest m q).1, (shortest m q).2⟩ := by
  have hden : 0 < (interval m q).den := Nat.pow_pos (by norm_num)
  have hvalueBound : (interval m q).value < pow10 1100 := by
    calc 4 * m * 2 ^ (q - 2).toNat
        ≤ 2 ^ 55 * 2 ^ (q - 2).toNat := Nat.mul_le_mul_right _ (by omega)
      _ = 2 ^ (55 + (q - 2).toNat) := (Nat.pow_add ..).symm
      _ < pow10 1100 := two_pow_lt_pow10 (by omega)
  have hdenBound : (interval m q).den < pow10 1100 :=
    two_pow_lt_pow10 (by omega : (2 - q).toNat < 1100)
  have hfirst := leadingPlace_bounds hvalueBound hdenBound
  have hlt := lt_leadingPlace (interval m q).value hden
  unfold shortest
  simp only
  split
  · rename_i d k hfound
    obtain ⟨place, hplace, hgrid⟩ := List.exists_of_findSome?_eq_some hfound
    obtain ⟨n, hn, rfl⟩ := List.mem_map.1 hplace
    obtain ⟨c, hc, hpair⟩ := Option.map_eq_some_iff.1 hgrid
    obtain ⟨rfl, rfl⟩ := Prod.mk.inj hpair
    have hn17 : n < 17 := List.mem_range.1 hn
    generalize leadingPlace (interval m q).value (interval m q).den = first at *
    have hplaces : first + 1 = first - n + (n + 1 : Nat) := by
      push_cast
      ring
    rw [hplaces] at hlt
    have hd : c ≤ 10 ^ (n + 1) := onGrid?_le hden hlt hc
    have hpow : 10 ^ (n + 1) ≤ 10 ^ 17 := Nat.pow_le_pow_right (by norm_num) (by omega)
    exact moderate_stripZeros negative (hd.trans hpow) (by omega) (by omega)
  · exact ⟨by norm_num, by norm_num, by norm_num⟩

theorem moderate_ofParts (negative : Bool) {m : Nat} {q : Int} (hm : m < 2 ^ 53) (hlow : -1074 ≤ q)
    (hhigh : q ≤ 971) : (ofParts negative m q).Moderate := by
  have hshortest := moderate_shortest negative hm hlow hhigh
  unfold ofParts
  split
  · exact ⟨by norm_num, by norm_num, by norm_num⟩
  · generalize shortest m q = digits at hshortest
    obtain ⟨d, k⟩ := digits
    simp only
    split
    · rename_i hpositional
      obtain ⟨hk, hfirst⟩ := hpositional
      simp only [isPositional, Bool.and_eq_true, decide_eq_true_eq] at hfirst
      have hd := Digits.lt_pow10_length d
      refine ⟨?_, by norm_num, by norm_num⟩
      calc d * pow10 (k.toNat + 1)
          ≤ pow10 (Digits.ofNat d).length * pow10 (k.toNat + 1) := Nat.mul_le_mul_right _ hd.le
        _ = pow10 ((Digits.ofNat d).length + (k.toNat + 1)) := (pow10_add _ _).symm
        _ ≤ 10 ^ 17 := Nat.pow_le_pow_right (by norm_num) (by omega)
    · exact hshortest

/-- **A finite double is written as a decimal of moderate size.** -/
theorem moderate_exact {x : Float} (h : x.isFinite = true) :
    ∃ d, exact x = .finite d ∧ d.Moderate := by
  obtain ⟨negative, m, q, hparts, hm, hlow, hhigh⟩ := parts_of_isFinite h
  refine ⟨ofParts negative m q, ?_, moderate_ofParts negative hm hlow hhigh⟩
  simp only [exact, hparts]

end Double

/-! ## Rounding -/

theorem divHalfUp_le (n unit : Nat) : divHalfUp n unit ≤ n + 1 := by
  have hdiv := Nat.div_le_self n unit
  unfold divHalfUp
  simp only
  split <;> omega

theorem divHalfUp_of_lt {n unit : Nat} (h : 2 * n < unit) : divHalfUp n unit = 0 := by
  have hdiv : n / unit = 0 := Nat.div_eq_of_lt (by omega)
  have hmod : n % unit = n := Nat.mod_eq_of_lt (by omega)
  unfold divHalfUp
  simp only [hdiv, hmod]
  rw [if_neg (by omega)]

namespace Decimal

theorem digitCount_pos (d : Decimal) : 0 < d.digitCount :=
  List.length_pos_of_ne_nil (Digits.ofNat_ne_nil d.coefficient)

theorem atExponent_of_le {d : Decimal} {e : Int} (h : e ≤ d.exponent) :
    d.atExponent e = ⟨d.negative, d.coefficient * pow10 (d.exponent - e).toNat, e⟩ :=
  if_pos h

theorem atExponent_of_lt {d : Decimal} {e : Int} (h : d.exponent < e) :
    d.atExponent e = ⟨d.negative, divHalfUp d.coefficient (pow10 (e - d.exponent).toNat), e⟩ :=
  if_neg (not_le.2 h)

theorem exponent_atExponent (d : Decimal) (e : Int) : (d.atExponent e).exponent = e := by
  unfold atExponent
  split <;> rfl

theorem atExponent_of_isZero {d : Decimal} (hzero : d.isZero = true) (e : Int) :
    d.atExponent e = ⟨d.negative, 0, e⟩ := by
  have hc : d.coefficient = 0 := by simpa [isZero] using hzero
  rcases le_or_gt e d.exponent with hle | hgt
  · rw [atExponent_of_le hle, hc, Nat.zero_mul]
  · rw [atExponent_of_lt hgt, hc, divHalfUp_of_lt (pow10_pos _)]

theorem quantum_eq {precision : Nat} {places : Int}
    (hlarge : (places.natAbs : Int) ≤ 2 * (maxAdjusted + precision)) (hp : -places ≤ maxAdjusted)
    (hleast : minExponent precision ≤ -places) : quantum precision places = .ok (-places) := by
  unfold quantum
  rw [if_neg (not_lt.2 hlarge), if_neg (not_lt.2 hp), max_eq_left hleast]

/-- A decimal can be brought to an exponent if the precision has room for its digits there and the
first of them does not get too far. -/
theorem quantize_eq {d : Decimal} {precision : Nat} {e : Int} (he : e ≤ maxAdjusted)
    (hleast : minExponent precision ≤ e) (hroom : d.digitCount + (d.exponent - e) ≤ precision)
    (hadjusted : (d.atExponent e).adjusted ≤ maxAdjusted) :
    d.quantize precision e = .ok (d.atExponent e) := by
  have hpos := (d.atExponent e).digitCount_pos
  have hexponent := d.exponent_atExponent e
  have hresult : minExponent precision ≤ (d.atExponent e).adjusted := by
    simp only [adjusted]
    omega
  unfold quantize
  simp only [Bool.or_eq_true, decide_eq_true_eq]
  rw [if_neg (by omega)]
  split
  · rename_i hzero
    rw [atExponent_of_isZero hzero]
  · rw [if_neg (not_lt.2 hroom), if_neg (by omega)]

section

variable {d : Decimal} (h : d.Moderate)

include h

theorem Moderate.digitCount_le : d.digitCount ≤ 18 := by
  have hlt : d.coefficient < pow10 18 := h.coefficient_le.trans_lt (by decide)
  exact Digits.length_ofNat_le (by norm_num) hlt

/-- The first digit of the rounded decimal stays in its place, or moves on by some places. -/
theorem Moderate.adjusted_atExponent_le {e : Int} (he : e ≤ maxAdjusted) :
    (d.atExponent e).adjusted ≤ maxAdjusted := by
  have hcount := h.digitCount_le
  have hlow := h.low
  have hhigh := h.high
  simp only [maxAdjusted] at *
  rcases le_or_gt e d.exponent with hle | hgt
  · rw [atExponent_of_le hle]
    have hlt : d.coefficient * pow10 (d.exponent - e).toNat <
        pow10 (d.digitCount + (d.exponent - e).toNat) := by
      rw [pow10_add]
      exact Nat.mul_lt_mul_of_pos_right (Digits.lt_pow10_length _) (pow10_pos _)
    have hlen : (Digits.ofNat (d.coefficient * pow10 (d.exponent - e).toNat)).length ≤
        d.digitCount + (d.exponent - e).toNat :=
      Digits.length_ofNat_le (Nat.add_pos_left d.digitCount_pos _) hlt
    simp only [adjusted, digitCount] at *
    omega
  · rw [atExponent_of_lt hgt]
    simp only [adjusted, digitCount]
    by_cases hfar : d.exponent + 18 < e
    · -- so far beyond its digits the decimal is rounded to zero
      have hunit : 10 ^ 19 ≤ pow10 (e - d.exponent).toNat :=
        Nat.pow_le_pow_right (by norm_num) (by omega)
      have hsmall : 2 * d.coefficient < pow10 (e - d.exponent).toNat := by
        have hc := h.coefficient_le
        omega
      rw [divHalfUp_of_lt hsmall, Digits.ofNat_of_lt (by norm_num)]
      simp only [List.length_singleton]
      omega
    · have hle := divHalfUp_le d.coefficient (pow10 (e - d.exponent).toNat)
      have hc := h.coefficient_le
      have hlt : divHalfUp d.coefficient (pow10 (e - d.exponent).toNat) < pow10 18 :=
        hle.trans_lt (lt_of_le_of_lt (Nat.add_le_add_right hc 1) (by decide))
      have hlen := Digits.length_ofNat_le (by norm_num) hlt
      omega

/-- **Rounding fails only for want of precision**, if the number of places is one that a decimal has an
exponent for. -/
theorem Moderate.roundHalfUp_eq {places : Int} (hp : -places ≤ maxAdjusted) :
    (DecimalValue.finite d).roundHalfUp places =
      if maxPrecision < (DecimalValue.finite d).workingPrecision places then
        .error (.precisionTooLarge ((DecimalValue.finite d).workingPrecision places))
      else .ok (Number.ofDecimal (d.atExponent (-places))) := by
  have hcount := h.digitCount_le
  have hpos := d.digitCount_pos
  have hlow := h.low
  have hhigh := h.high
  have hadjusted := h.adjusted_atExponent_le hp
  have hdigits : d.adjusted = d.exponent + d.digitCount - 1 := rfl
  have hprecision : d.adjusted + places + 2 ≤ (DecimalValue.finite d).workingPrecision places ∧
      28 ≤ (DecimalValue.finite d).workingPrecision places := by
    simp only [DecimalValue.workingPrecision, DecimalValue.adjusted, defaultPrecision]
    omega
  unfold DecimalValue.roundHalfUp
  generalize (DecimalValue.finite d).workingPrecision places = precision at hprecision ⊢
  simp only
  split
  · rfl
  have hleast : minExponent precision ≤ -places := by
    simp only [minExponent, minAdjusted]
    omega
  have hquantum : quantum precision places = .ok (-places) := by
    refine quantum_eq ?_ hp hleast
    simp only [maxAdjusted] at *
    omega
  have hquantize : d.quantize precision (-places) = .ok (d.atExponent (-places)) := by
    refine quantize_eq hp hleast ?_ hadjusted
    omega
  rw [hquantum]
  change (do
    let rounded ← (d.quantize precision (-places)).map DecimalValue.finite
    Number.ofValue rounded) = _
  rw [hquantize]
  rfl

end

end Decimal

/-! ## What comes out -/

theorem Double.isFinite_ofDecimal {d : Decimal} (he : d.exponent < 0)
    (h : d.coefficient < 2 ^ 64 * 10 ^ (-d.exponent).toNat) :
    (Double.ofDecimal d).isFinite = true := by
  have hzero : (0 : Float).isFinite = true := by decide +kernel
  have hadjusted : d.adjusted ≤ 400 := by
    have hlt : d.coefficient < pow10 (20 + (-d.exponent).toNat) := by
      rw [pow10_add]
      exact h.trans_le (Nat.mul_le_mul_right _ (by decide))
    have hcount : d.digitCount ≤ 20 + (-d.exponent).toNat :=
      Digits.length_ofNat_le (by omega) hlt
    simp only [Decimal.adjusted]
    omega
  have hsize : (if d.isZero then 0
      else if 400 < d.adjusted then infinity false
      else if d.adjusted < -400 then 0
      else Float.ofScientific d.coefficient (d.exponent < 0) d.exponent.natAbs).isFinite = true := by
    split
    · exact hzero
    · rw [if_neg (not_lt.2 hadjusted)]
      split
      · exact hzero
      · have hplaces : d.exponent.natAbs = (-d.exponent).toNat := by omega
        rw [decide_eq_true he, hplaces]
        exact isFinite_ofScientific (by omega) h
  unfold ofDecimal
  simp only
  split
  · exact isFinite_neg hsize
  · exact hsize

/-- An integer or a finite double. -/
def Number.IsFinite : Number → Prop
  | .int _ => True
  | .float x => x.isFinite = true

/-- A multiple of the unit is whole. -/
theorem Decimal.toInt?_isSome {d : Decimal}
    (h : d.exponent < 0 → pow10 (-d.exponent).toNat ∣ d.coefficient) : d.toInt?.isSome = true := by
  unfold toInt?
  split
  · rfl
  · rename_i hneg
    have hmod := Nat.mod_eq_zero_of_dvd (h (by omega))
    simp only [hmod, if_true, Option.isSome_some]

/-- **What a decimal of moderate size is rounded to is finite.** -/
theorem Decimal.Moderate.isFinite_atExponent {d : Decimal} (h : d.Moderate) (e : Int) :
    (Number.ofDecimal (d.atExponent e)).IsFinite := by
  unfold Number.ofDecimal
  cases hwhole : (d.atExponent e).toInt? with
  | some n => exact trivial
  | none =>
    have hpart : ¬ ((d.atExponent e).exponent < 0 →
        pow10 (-(d.atExponent e).exponent).toNat ∣ (d.atExponent e).coefficient) := by
      intro hdvd
      have hsome := Decimal.toInt?_isSome hdvd
      rw [hwhole] at hsome
      exact Bool.noConfusion hsome
    rw [Classical.not_imp] at hpart
    obtain ⟨he, hdvd⟩ := hpart
    refine Double.isFinite_ofDecimal he ?_
    have hc := h.coefficient_le
    rcases le_or_gt e d.exponent with hle | hgt
    · rw [Decimal.atExponent_of_le hle] at he hdvd ⊢
      simp only at he hdvd ⊢
      -- a decimal without digits after its point would be whole
      have hfraction : d.exponent < 0 := by
        by_contra hexponent
        exact hdvd (Nat.dvd_mul_left_of_dvd (Nat.pow_dvd_pow 10 (by omega)) _)
      have hpow : pow10 (d.exponent - e).toNat ≤ 10 ^ (-e).toNat :=
        Nat.pow_le_pow_right (by norm_num) (by omega)
      calc d.coefficient * pow10 (d.exponent - e).toNat
          ≤ 10 ^ 17 * 10 ^ (-e).toNat := Nat.mul_le_mul hc hpow
        _ < 2 ^ 64 * 10 ^ (-e).toNat := Nat.mul_lt_mul_of_pos_right (by norm_num) (by positivity)
    · rw [Decimal.atExponent_of_lt hgt]
      have hle := divHalfUp_le d.coefficient (pow10 (e - d.exponent).toNat)
      have hpow : 1 ≤ 10 ^ (-e).toNat := Nat.one_le_pow _ _ (by norm_num)
      calc divHalfUp d.coefficient (pow10 (e - d.exponent).toNat)
          < 2 ^ 64 * 1 := by omega
        _ ≤ 2 ^ 64 * 10 ^ (-e).toNat := Nat.mul_le_mul_left _ hpow

end Longhand
