import Longhand.Proofs.ShortestDecimals
/-!
# Decimals are read as the nearest double

A decimal becomes its number rounded once (`IsRounded`), unless it is far off the range of doubles
(`exists_isSize`): whether its digits and its power of ten are exact doubles, whose product or
quotient is rounded, or the rounding works on the whole numbers themselves. So a decimal that is read
as a finite double `m * 2 ^ q` becomes that double (`parts_ofDecimal`), and what a double is written
as gives the double again (`parts_ofDecimal_exact`).
-/

namespace Longhand.Double

open Decimal (ten_zpow_pos ten_zpow_add)
open Float.Model Float.Model.UnpackedFloat

/-! ## Rounding once -/

/-- What is rounded once is the double that the exact result is read as. -/
theorem unpack_pack_rounded {m : Nat} {q : Int} {v : ℚ} (hc : Canonical m q) (hm : 0 < m)
    (hr : Reads m q v) {u : UnpackedFloat} {s : Sign} (h : ∃ n t, Rounds v n t ∧ u = carried s n t) :
    (Float.Model.pack u).unpack = .finite s m q hm := by
  obtain ⟨n, t, hrounds, rfl⟩ := h
  rw [hr.carried_eq hc hm hrounds s]
  exact unpack_pack hc s hm

/-- The double is the number `v` with a sign, rounded once. -/
def IsRounded (x : Float) (s : Sign) (v : ℚ) : Prop :=
  ∃ n t, Rounds v n t ∧ x.toModel.unpack = (Float.Model.pack (carried s n t)).unpack

section

variable {x : Float} {s : Sign} {v : ℚ}

theorem IsRounded.of_pack {u : UnpackedFloat} (hx : x.toModel.unpack = (Float.Model.pack u).unpack)
    (h : ∃ n t, Rounds v n t ∧ u = carried s n t) : IsRounded x s v := by
  obtain ⟨n, t, hrounds, rfl⟩ := h
  exact ⟨n, t, hrounds, hx⟩

theorem IsRounded.unpack_eq (h : IsRounded x s v) {m : Nat} {q : Int} (hc : Canonical m q)
    (hm : 0 < m) (hr : Reads m q v) : x.toModel.unpack = .finite s m q hm := by
  obtain ⟨n, t, hrounds, hx⟩ := h
  rw [hx]
  exact unpack_pack_rounded hc hm hr ⟨n, t, hrounds, rfl⟩

/-- What is rounded once keeps its sign, also where it becomes zero or an infinity. -/
theorem IsRounded.unpack_cases (h : IsRounded x s v) :
    x.toModel.unpack = .zero s ∨ x.toModel.unpack = .infinity s ∨
      ∃ m q hm, x.toModel.unpack = .finite s m q hm := by
  obtain ⟨n, t, hrounds, hx⟩ := h
  have hpacked {m : Nat} {q : Int} (hm : 0 < m) (hlt : m < 2 ^ 53) (hleast : minExponent ≤ q)
      (hleading : 2 ^ 52 ≤ m ∨ q = minExponent) (heq : carried s n t = .finite s m q hm) :
      x.toModel.unpack = .infinity s ∨ ∃ m q hm, x.toModel.unpack = .finite s m q hm := by
    rw [hx, heq]
    rcases le_or_gt q maxExponent with hle | hgt
    · exact .inr ⟨m, q, hm, unpack_pack ⟨hlt, hleast, hle, hleading⟩ s hm⟩
    · exact .inl (unpack_pack_of_lt s hm hgt)
  have hleast := hrounds.unit.least
  by_cases hzero : n = 0
  · refine .inl ?_
    rw [hx, carried, dif_pos hzero]
    exact unpack_pack_zero s
  by_cases hlt : n < 2 ^ 53
  · exact .inr (hpacked (Nat.pos_of_ne_zero hzero) hlt hleast hrounds.leading
      (by rw [carried, dif_neg hzero, if_pos hlt]))
  · exact .inr (hpacked (q := t + 1) (by norm_num) (by norm_num) (by omega) (.inl le_rfl)
      (by rw [carried, dif_neg hzero, if_neg hlt]))

theorem IsRounded.parts_cases (h : IsRounded x s v) :
    parts x = .infinity (isNegative s) ∨ ∃ m q, parts x = .finite (isNegative s) m q := by
  rw [parts_eq]
  rcases h.unpack_cases with hu | hu | ⟨m, q, _, hu⟩ <;> rw [hu]
  · exact .inr ⟨0, minExponent, rfl⟩
  · exact .inl rfl
  · exact .inr ⟨m, q, rfl⟩

end

/-- A product of doubles has no unit that is too large. -/
theorem log2_mul_or {m₁ m₂ : Nat} {q₁ q₂ : Int} (h₁ : Canonical m₁ q₁) (h₂ : Canonical m₂ q₂)
    (hm₁ : 0 < m₁) (hm₂ : 0 < m₂) : 52 ≤ (m₁ * m₂).log2 ∨ q₁ + q₂ ≤ minExponent := by
  have hpos : 0 < m₁ * m₂ := Nat.mul_pos hm₁ hm₂
  rcases h₁.leading with hleading | hleast
  · exact .inl ((Nat.le_log2 hpos.ne').2 (hleading.trans (Nat.le_mul_of_pos_right _ hm₂)))
  · rcases h₂.leading with hleading | hleast₂
    · exact .inl ((Nat.le_log2 hpos.ne').2 (hleading.trans (Nat.le_mul_of_pos_left _ hm₁)))
    · refine .inr ?_
      rw [hleast, hleast₂]
      decide

section

variable {x y : Float} {s₁ s₂ : Sign} {m₁ m₂ : Nat} {q₁ q₂ : Int} {h₁ : 0 < m₁} {h₂ : 0 < m₂}
  (hx : x.toModel.unpack = .finite s₁ m₁ q₁ h₁) (hy : y.toModel.unpack = .finite s₂ m₂ q₂ h₂)

include hx hy

/-- **A product of doubles is the exact product, rounded once.** -/
theorem isRounded_mul : IsRounded (x * y) (s₁ * s₂) (m₁ * 2 ^ q₁ * (m₂ * 2 ^ q₂)) := by
  refine .of_pack (u := UnpackedFloat.mul .binary64 x.toModel.unpack y.toModel.unpack) rfl ?_
  rw [hx, hy]
  exact mul_eq h₁ h₂ (log2_mul_or (canonical_unpack hx) (canonical_unpack hy) h₁ h₂)

/-- **A quotient of doubles is the exact quotient, rounded once.** -/
theorem isRounded_div : IsRounded (x / y) (s₁ / s₂) (m₁ * 2 ^ q₁ / (m₂ * 2 ^ q₂)) := by
  refine .of_pack (u := UnpackedFloat.div .binary64 x.toModel.unpack y.toModel.unpack) rfl ?_
  rw [hx, hy]
  exact div_eq h₁ h₂

end

/-! ## Whole numbers -/

/-- A whole number of at most 53 binary digits is a double. -/
theorem exists_canonical {n : Nat} (hpos : 0 < n) (hlt : n < 2 ^ 53) :
    ∃ m q, Canonical m q ∧ 0 < m ∧ (m : ℚ) * 2 ^ q = n := by
  have hlog : n.log2 < 53 := (Nat.log2_lt hpos.ne').2 hlt
  have hlow := Nat.log2_self_le hpos.ne'
  have hhigh : n < 2 ^ (n.log2 + 1) := Nat.lt_log2_self
  have hmLow : 2 ^ 52 ≤ n * 2 ^ (52 - n.log2) := by
    calc 2 ^ 52 = 2 ^ n.log2 * 2 ^ (52 - n.log2) := by rw [← Nat.pow_add]; congr 1; omega
      _ ≤ n * 2 ^ (52 - n.log2) := Nat.mul_le_mul_right _ hlow
  have hmHigh : n * 2 ^ (52 - n.log2) < 2 ^ 53 := by
    calc n * 2 ^ (52 - n.log2)
        < 2 ^ (n.log2 + 1) * 2 ^ (52 - n.log2) := Nat.mul_lt_mul_of_pos_right hhigh (by positivity)
      _ = 2 ^ 53 := by rw [← Nat.pow_add]; congr 1; omega
  refine ⟨n * 2 ^ (52 - n.log2), (n.log2 : Int) - 52, ⟨hmHigh, ?_, ?_, .inl hmLow⟩, by positivity, ?_⟩
  · simp only [minExponent]
    omega
  · simp only [maxExponent]
    omega
  · have hexponent : (n.log2 : Int) - 52 = -((52 - n.log2 : Nat) : Int) := by omega
    push_cast
    rw [hexponent, zpow_neg, zpow_natCast, mul_assoc, mul_inv_cancel₀ (by positivity), mul_one]

theorem unpack_toFloat {n : Nat} (hpos : 0 < n) (hlt : n < 2 ^ 53) :
    ∃ m q, ∃ hm : 0 < m, n.toUInt64.toFloat.toModel.unpack = .finite .positive m q hm ∧
      (m : ℚ) * 2 ^ q = n := by
  obtain ⟨m, q, hc, hm, hvalue⟩ := exists_canonical hpos hlt
  refine ⟨m, q, hm, ?_, hvalue⟩
  have hn : n.toUInt64.toNat = n := by
    rw [Nat.toUInt64_eq, UInt64.toNat_ofNat']
    exact Nat.mod_eq_of_lt (hlt.trans (by norm_num))
  have hnormalize : UnpackedFloat.normalize .binary64 (n : Int) 0 .positive =
      UnpackedFloat.round .binary64 .positive n 0 := by
    unfold UnpackedFloat.normalize
    rw [Int.compare_eq_gt.2 (by omega)]
    rfl
  change (Float.Model.pack
    (UnpackedFloat.normalize .binary64 ((n.toUInt64.toNat : Nat) : Int) 0 .positive)).unpack = _
  rw [hn, hnormalize]
  have hround := round_eq .positive hpos 0
  rw [zpow_zero, mul_one] at hround
  exact unpack_pack_rounded hc hm (hvalue ▸ reads_self m q) hround

/-- The parts of an exact power of ten. -/
def isPowerOfTen (u : UnpackedFloat) (e : Nat) : Bool :=
  match u with
  | .finite .positive m q _ => m * 2 ^ q.toNat = 10 ^ e * 2 ^ (-q).toNat
  | _ => false

theorem isPowerOfTen_table : ∀ (e : Nat) (_ : e < Float.exactlyRepresentablePowersOfTen.size),
    isPowerOfTen Float.exactlyRepresentablePowersOfTen[e].toModel.unpack e = true := by
  decide +kernel

theorem exists_of_isPowerOfTen {u : UnpackedFloat} {e : Nat} (h : isPowerOfTen u e = true) :
    ∃ m q, ∃ hm : 0 < m, u = .finite .positive m q hm ∧ (m : ℚ) * 2 ^ q = 10 ^ e := by
  unfold isPowerOfTen at h
  split at h
  · rename_i m q hm
    refine ⟨m, q, hm, rfl, ?_⟩
    have hcast : (m : ℚ) * 2 ^ q.toNat = 10 ^ e * 2 ^ (-q).toNat := by
      exact_mod_cast of_decide_eq_true h
    have hpow : (2 : ℚ) ^ q = 2 ^ q.toNat / 2 ^ (-q).toNat := by
      rw [eq_div_iff (by positivity), ← zpow_natCast, ← zpow_natCast, ← two_zpow_add]
      congr 1
      omega
    rw [hpow, ← mul_div_assoc, hcast, mul_div_cancel_right₀ _ (by positivity)]
  · cases h

/-! ## Decimals -/

section

variable {n : Nat} (hn : 0 < n)

include hn

/-- Digits before the point. -/
theorem isRounded_ofScientific_nonneg {e : Nat} (he : e ≤ 2 ^ 11) :
    IsRounded (Float.ofScientific n false e) .positive (n * 10 ^ e) := by
  unfold Float.ofScientific
  split
  · rename_i hfast
    obtain ⟨m₁, q₁, h₁, hx, hvalue⟩ := unpack_toFloat hn hfast.1
    obtain ⟨m₂, q₂, h₂, hy, hpower⟩ := exists_of_isPowerOfTen
      (isPowerOfTen_table e (Nat.lt_succ_of_le hfast.2))
    have hproduct := isRounded_mul hx hy
    rw [hvalue, hpower] at hproduct
    exact hproduct
  · refine .of_pack (u := UnpackedFloat.ofScientific .binary64 n (e : Int)) rfl ?_
    unfold UnpackedFloat.ofScientific
    have hpow : (2 : Int) ^ Format.exponentBits .binary64 = 2 ^ 11 := rfl
    rw [dif_neg hn.ne', hpow, if_neg (by omega), if_neg (by omega), if_pos (by omega)]
    have hshift : 0 < n <<< 53 := Nat.shiftLeft_eq n 53 ▸ Nat.mul_pos hn (by norm_num)
    have hten : 0 < 10 ^ e := by positivity
    have hlog : 52 ≤ (n <<< 53 * 10 ^ e).log2 := by
      refine (Nat.le_log2 (Nat.mul_pos hshift hten).ne').2 ?_
      calc 2 ^ 52 ≤ n * 2 ^ 53 := by omega
        _ = n <<< 53 := (Nat.shiftLeft_eq n 53).symm
        _ ≤ n <<< 53 * 10 ^ e := Nat.le_mul_of_pos_right _ hten
    have hvalue : ((n <<< 53 : Nat) : ℚ) * 2 ^ (-53 : Int) * ((10 ^ e : Nat) * 2 ^ (0 : Int)) =
        n * 10 ^ e := by
      rw [Nat.shiftLeft_eq, zpow_zero, mul_one, Nat.cast_mul, Nat.cast_pow, Nat.cast_pow,
        Nat.cast_ofNat, Nat.cast_ofNat, zpow_neg, zpow_ofNat,
        mul_inv_cancel_right₀ (by positivity : (2 : ℚ) ^ 53 ≠ 0)]
    rw [← hvalue]
    exact @mul_eq .positive .positive _ _ _ _ hshift hten (.inl hlog)

/-- Digits after the point. -/
theorem isRounded_ofScientific_neg {e : Nat} (hpos : 0 < e) (he : e ≤ 2 ^ 11 + n.log2) :
    IsRounded (Float.ofScientific n true e) .positive (n / 10 ^ e) := by
  unfold Float.ofScientific
  split
  · rename_i hfast
    obtain ⟨m₁, q₁, h₁, hx, hvalue⟩ := unpack_toFloat hn hfast.1
    obtain ⟨m₂, q₂, h₂, hy, hpower⟩ := exists_of_isPowerOfTen
      (isPowerOfTen_table e (Nat.lt_succ_of_le hfast.2))
    have hquotient := isRounded_div hx hy
    rw [hvalue, hpower] at hquotient
    exact hquotient
  · refine .of_pack (u := UnpackedFloat.ofScientific .binary64 n (Int.negOfNat e)) rfl ?_
    have hneg : Int.negOfNat e = -(e : Int) := Int.negOfNat_eq
    rw [hneg]
    unfold UnpackedFloat.ofScientific
    have hpow : (2 : Int) ^ Format.exponentBits .binary64 = 2 ^ 11 := rfl
    rw [dif_neg hn.ne', hpow, if_neg (by omega), if_neg (by omega), if_neg (by omega)]
    have hten : 0 < 10 ^ (- -(e : Int)).toNat := by positivity
    have hvalue : (n : ℚ) * 2 ^ (0 : Int) / ((10 ^ (- -(e : Int)).toNat : Nat) * 2 ^ (0 : Int)) =
        n / 10 ^ e := by
      rw [neg_neg, Int.toNat_natCast, zpow_zero, mul_one, mul_one]
      push_cast
      rfl
    rw [← hvalue]
    exact @div_eq .positive .positive _ _ _ _ hn hten

end

/-- What is read as a double is neither too large nor too small for one. -/
theorem Reads.bounds {m : Nat} {q : Int} {v : ℚ} (hc : Canonical m q) (hm : 0 < m)
    (hr : Reads m q v) : (10 : ℚ) ^ (-400 : Int) < v ∧ v < 10 ^ (400 : Int) := by
  have hpow := two_zpow_pos q
  have hcast : (1 : ℚ) ≤ m := by exact_mod_cast hm
  have hcastTop : (m : ℚ) + 1 ≤ 2 ^ 53 := by exact_mod_cast hc.lt
  have hten : (2 : ℚ) ^ (1200 : Int) < 10 ^ (400 : Int) := by
    rw [show (1200 : Int) = 3 * 400 from rfl, zpow_mul, zpow_ofNat, zpow_ofNat, zpow_ofNat]
    exact pow_lt_pow_left₀ (by norm_num) (by norm_num) (by norm_num)
  constructor
  · have hlow : (1 : ℚ) / 2 * 2 ^ q ≤ v := by
      rw [← le_div_iff₀ hpow]
      linarith [hr.low, gapBelow_le m q]
    have hleast : (2 : ℚ) ^ (-1074 : Int) ≤ 2 ^ q := zpow_le_zpow_right₀ (by norm_num) hc.least
    calc (10 : ℚ) ^ (-400 : Int) < 2 ^ (-1200 : Int) := by
          rw [zpow_neg, zpow_neg]
          exact inv_strictAnti₀ (two_zpow_pos _) hten
      _ ≤ 2 ^ (-1075 : Int) := zpow_le_zpow_right₀ (by norm_num) (by norm_num)
      _ = 1 / 2 * 2 ^ (-1074 : Int) := by
          rw [show (-1075 : Int) = -1 + -1074 from rfl, two_zpow_add, zpow_neg_one, one_div]
      _ ≤ 1 / 2 * 2 ^ q := mul_le_mul_of_nonneg_left hleast (by norm_num)
      _ ≤ v := hlow
  · have hhigh : v ≤ 2 ^ 53 * 2 ^ q := by
      rw [← div_le_iff₀ hpow]
      linarith [hr.high]
    have hmost : (2 : ℚ) ^ q ≤ 2 ^ (971 : Int) := zpow_le_zpow_right₀ (by norm_num) hc.le
    calc v ≤ 2 ^ 53 * 2 ^ q := hhigh
      _ ≤ 2 ^ 53 * 2 ^ (971 : Int) := mul_le_mul_of_nonneg_left hmost (by norm_num)
      _ = 2 ^ (1024 : Int) := by
          rw [show (1024 : Int) = 53 + 971 from rfl, two_zpow_add, zpow_ofNat (2 : ℚ) 53]
      _ ≤ 2 ^ (1200 : Int) := zpow_le_zpow_right₀ (by norm_num) (by norm_num)
      _ < 10 ^ (400 : Int) := hten

/-- The place of the first digit of a decimal. -/
theorem adjusted_bounds {d : Decimal} (hd : 0 < d.coefficient) :
    (10 : ℚ) ^ d.adjusted ≤ |d.toRat| ∧ |d.toRat| < 10 ^ (d.adjusted + 1) := by
  have hcount := d.digitCount_pos
  have hpow := ten_zpow_pos d.exponent
  have hlow : (10 : ℚ) ^ ((d.digitCount : Int) - 1) ≤ d.coefficient := by
    have h : ((pow10 (d.digitCount - 1) : Nat) : ℚ) ≤ d.coefficient := by
      exact_mod_cast Digits.pow10_length_le hd.ne'
    rwa [pow10_eq, ← zpow_natCast, Nat.cast_sub hcount, Nat.cast_one] at h
  have hhigh : (d.coefficient : ℚ) < 10 ^ (d.digitCount : Int) := by
    have h : (d.coefficient : ℚ) < (pow10 d.digitCount : Nat) := by
      exact_mod_cast Digits.lt_pow10_length d.coefficient
    rwa [pow10_eq, ← zpow_natCast] at h
  have hfirst : d.adjusted = d.digitCount - 1 + d.exponent := by
    simp only [Decimal.adjusted]
    omega
  have hnext : d.adjusted + 1 = d.digitCount + d.exponent := by
    rw [hfirst]
    omega
  rw [Decimal.abs_toRat, hnext, hfirst, ten_zpow_add, ten_zpow_add]
  exact ⟨mul_le_mul_of_nonneg_right hlow hpow.le, mul_lt_mul_of_pos_right hhigh hpow⟩

/-- What the size `v` of a decimal becomes: zero or an infinity far off the range of doubles, and `v`
rounded once elsewhere. -/
inductive IsSize (v : ℚ) : Float → Prop
  | small (h : v ≤ 10 ^ (-400 : Int)) : IsSize v 0
  | large (h : 10 ^ (400 : Int) ≤ v) : IsSize v (infinity false)
  | rounded {x : Float} (h : IsRounded x .positive v) : IsSize v x

/-- The digits of a decimal that is in the range of doubles are rounded once. -/
theorem isRounded_size {d : Decimal} (hd : 0 < d.coefficient) (hlow : -400 ≤ d.adjusted)
    (hhigh : d.adjusted ≤ 400) :
    IsRounded (Float.ofScientific d.coefficient (d.exponent < 0) d.exponent.natAbs) .positive
      |d.toRat| := by
  have hcount : (d.digitCount : Int) ≤ d.coefficient.log2 + 1 := by
    have hlog : d.digitCount - 1 ≤ d.coefficient.log2 := by
      refine (Nat.le_log2 hd.ne').2 (le_trans ?_ (Digits.pow10_length_le hd.ne'))
      exact Nat.pow_le_pow_left (by norm_num) _
    omega
  have hcountPos := d.digitCount_pos
  simp only [Decimal.adjusted] at hlow hhigh
  rw [Decimal.abs_toRat]
  rcases lt_or_ge d.exponent 0 with hneg | hnonneg
  · have hpow : (d.coefficient : ℚ) * 10 ^ d.exponent = d.coefficient / 10 ^ d.exponent.natAbs := by
      have hplaces : (d.exponent.natAbs : Int) = -d.exponent := by omega
      rw [← zpow_natCast, hplaces, zpow_neg, div_inv_eq_mul]
    rw [decide_eq_true hneg, hpow]
    exact isRounded_ofScientific_neg hd (by omega) (by omega)
  · have hpow : (d.coefficient : ℚ) * 10 ^ d.exponent = d.coefficient * 10 ^ d.exponent.natAbs := by
      have hplaces : (d.exponent.natAbs : Int) = d.exponent := by omega
      rw [← zpow_natCast, hplaces]
    rw [decide_eq_false (not_lt.2 hnonneg), hpow]
    exact isRounded_ofScientific_nonneg hd (by omega)

/-- **A decimal becomes its number rounded once**, in the range of doubles. -/
theorem exists_isSize (d : Decimal) :
    ∃ x, IsSize |d.toRat| x ∧ ofDecimal d = if d.negative then -x else x := by
  refine ⟨_, ?_, rfl⟩
  split
  · rename_i hzero
    have hvalue : |d.toRat| = 0 := by rw [d.isZero_iff.1 hzero, abs_zero]
    exact .small (hvalue ▸ (ten_zpow_pos _).le)
  · rename_i hzero
    have hd : 0 < d.coefficient := Nat.pos_of_ne_zero (by simpa [Decimal.isZero] using hzero)
    obtain ⟨hlow, hhigh⟩ := adjusted_bounds hd
    split
    · rename_i hlarge
      exact .large ((zpow_le_zpow_right₀ (by norm_num) hlarge.le).trans hlow)
    · rename_i hlarge
      split
      · rename_i hsmall
        exact .small (hhigh.le.trans (zpow_le_zpow_right₀ (by norm_num) (by omega)))
      · rename_i hsmall
        exact .rounded (isRounded_size hd (not_lt.1 hsmall) (not_lt.1 hlarge))

/-- Zero without a sign becomes zero without a sign. -/
theorem ofDecimal_eq_zero {d : Decimal} (hsign : d.negative = false) (hzero : d.toRat = 0) :
    ofDecimal d = 0 := by
  simp [ofDecimal, hsign, d.isZero_iff.2 hzero]

/-- **A decimal becomes the double that it is read as.** -/
theorem parts_ofDecimal {m : Nat} {q : Int} (hc : Canonical m q) (hm : 0 < m) {d : Decimal}
    (hr : Reads m q |d.toRat|) : parts (ofDecimal d) = .finite d.negative m q := by
  obtain ⟨hlow, hhigh⟩ := hr.bounds hc hm
  obtain ⟨x, hsize, hx⟩ := exists_isSize d
  have hunpack : x.toModel.unpack = .finite .positive m q hm := by
    cases hsize with
    | small h => exact absurd hlow (not_lt.2 h)
    | large h => exact absurd hhigh (not_lt.2 h)
    | rounded h => exact h.unpack_eq hc hm hr
  rw [hx]
  cases hsign : d.negative
  · rw [if_neg Bool.false_ne_true, parts_eq, hunpack]
    rfl
  · rw [if_pos rfl, parts_eq]
    change Parts.ofUnpacked (Float.Model.pack x.toModel.unpack.neg).unpack = _
    rw [hunpack]
    change Parts.ofUnpacked (Float.Model.pack (.finite .negative m q hm)).unpack = _
    rw [unpack_pack hc]
    rfl

/-- A decimal without a sign becomes a double without a sign. -/
theorem parts_ofDecimal_cases {d : Decimal} (hd : d.negative = false) :
    parts (ofDecimal d) = .infinity false ∨ ∃ m q, parts (ofDecimal d) = .finite false m q := by
  obtain ⟨x, hsize, hx⟩ := exists_isSize d
  rw [hx, hd, if_neg Bool.false_ne_true]
  cases hsize with
  | small _ => exact .inr ⟨0, minExponent, by decide +kernel⟩
  | large _ => exact .inl (by decide +kernel)
  | rounded hrounded => exact hrounded.parts_cases

/-! ## Every number of moderate size has a nearest double -/

/-- A number of this size and all above it are too large for the greatest double to be the nearest. -/
def overflow : ℚ :=
  2 ^ (1024 : Int) - 2 ^ (970 : Int)

theorem two_zpow_le_overflow {e : Int} (he : e ≤ 1023) : (2 : ℚ) ^ e ≤ overflow := by
  have hpow : (2 : ℚ) ^ e ≤ 2 ^ (1023 : Int) := zpow_le_zpow_right₀ (by norm_num) he
  have hhalf : (2 : ℚ) ^ (970 : Int) ≤ 2 ^ (1023 : Int) :=
    zpow_le_zpow_right₀ (by norm_num) (by norm_num)
  have htop : (2 : ℚ) ^ (1024 : Int) = 2 ^ (1023 : Int) + 2 ^ (1023 : Int) := by
    rw [← mul_two, ← zpow_add_one₀ (by norm_num)]
    rfl
  calc (2 : ℚ) ^ e ≤ 2 ^ (1023 : Int) := hpow
    _ = 2 ^ (1024 : Int) - 2 ^ (1023 : Int) := by rw [htop, add_sub_cancel_right]
    _ ≤ overflow := sub_le_sub_left hhalf _

/-- A number that is not too small and not too large is read as a double with all its digits. -/
theorem Rounds.exists_reads {v : ℚ} {n : Nat} {t : Int} (h : Rounds v n t)
    (hlow : 2 ^ (-1022 : Int) ≤ v) (hhigh : v < overflow) :
    ∃ m q, Canonical m q ∧ 2 ^ 52 ≤ m ∧ Reads m q v := by
  have hunit : t ≤ 971 := by
    rcases h.unit.leading with hleast | hleading
    · rw [hleast]
      decide
    · have htop : v < 2 ^ (1024 : Int) := hhigh.trans (sub_lt_self _ (two_zpow_pos 970))
      have hexp := (zpow_lt_zpow_iff_right₀ (by norm_num : (1 : ℚ) < 2)).1 (hleading.trans_lt htop)
      omega
  have hleading : 2 ^ 52 ≤ n := by
    rcases h.leading with hleading | hleast
    · exact hleading
    · have hsize : (2 : ℚ) ^ (52 : Int) ≤ v / 2 ^ t := by
        rw [hleast, le_div_iff₀ (two_zpow_pos _), ← two_zpow_add]
        exact hlow
      have hcast : ((2 ^ 52 : Nat) : ℚ) < n + 1 := by
        push_cast
        rw [zpow_ofNat] at hsize
        linarith [h.nearest.high]
      exact Nat.lt_succ_iff.1 (by exact_mod_cast hcast)
  have hne : n ≠ 0 := by
    rintro rfl
    norm_num at hleading
  have hle := h.le
  have hleast := h.unit.least
  by_cases hlt : n < 2 ^ 53
  · have hcarried : carried .positive n t = .finite .positive n t (Nat.pos_of_ne_zero hne) := by
      rw [carried, dif_neg hne, if_pos hlt]
    refine ⟨n, t, ⟨hlt, hleast, ?_, .inl hleading⟩, hleading, h.reads hcarried⟩
    simp only [maxExponent]
    omega
  · have hcarried : carried .positive n t = .finite .positive (2 ^ 52) (t + 1) (by norm_num) := by
      rw [carried, dif_neg hne, if_neg hlt]
    have hroom : t ≠ 971 := by
      rintro rfl
      -- rounding up to one digit more takes half a unit
      have hcast : ((2 ^ 53 : Nat) : ℚ) ≤ n := by exact_mod_cast not_lt.1 hlt
      have hvalue : (2 ^ 53 - 1 / 2 : ℚ) ≤ v / 2 ^ (971 : Int) := by
        push_cast at hcast
        linarith [h.nearest.low]
      rw [le_div_iff₀ (two_zpow_pos _), sub_mul] at hvalue
      have htop : (2 : ℚ) ^ 53 * 2 ^ (971 : Int) = 2 ^ (1024 : Int) := by
        rw [← zpow_natCast, ← two_zpow_add]
        rfl
      have hhalf : (1 / 2 : ℚ) * 2 ^ (971 : Int) = 2 ^ (970 : Int) := by
        rw [one_div, ← zpow_neg_one, ← two_zpow_add]
        rfl
      rw [htop, hhalf] at hvalue
      exact absurd hhigh (not_lt.2 hvalue)
    refine ⟨2 ^ 52, t + 1, ⟨by norm_num, by omega, ?_, .inl le_rfl⟩, le_rfl, h.reads hcarried⟩
    simp only [maxExponent]
    omega

/-- Every positive number is rounded. -/
theorem exists_rounds {v : ℚ} (hv : 0 < v) : ∃ n t, Rounds v n t := by
  obtain ⟨n, t, hrounds, -⟩ := @div_eq .positive .positive v.num.natAbs v.den 0 0
    (Int.natAbs_pos.2 (Rat.num_pos.2 hv).ne') v.den_pos
  have hnum : ((v.num.natAbs : Nat) : ℚ) = v.num := by
    rw [Nat.cast_natAbs, abs_of_pos (Rat.num_pos.2 hv)]
  rw [zpow_zero, mul_one, mul_one, hnum, Rat.num_div_den] at hrounds
  exact ⟨n, t, hrounds⟩

/-- **A number that is not too small and not too large is read as a double with all its digits.** -/
theorem exists_reads {v : ℚ} (hlow : 2 ^ (-1022 : Int) ≤ v) (hhigh : v < overflow) :
    ∃ m q, Canonical m q ∧ 2 ^ 52 ≤ m ∧ Reads m q v := by
  obtain ⟨n, t, hrounds⟩ := exists_rounds ((two_zpow_pos _).trans_le hlow)
  exact hrounds.exists_reads hlow hhigh

/-! ## The way back -/

/-- The number that the parts of a double are written as. -/
theorem toRat_ofParts (negative : Bool) {m : Nat} (q : Int) (hm : 0 < m) :
    (ofParts negative m q).toRat = if negative then -shortestValue m q else shortestValue m q := by
  have hsigned (d : Nat) (k : Int) : (⟨negative, d, k⟩ : Decimal).toRat =
      if negative then -(d * 10 ^ k : ℚ) else d * 10 ^ k := by
    cases negative <;> simp [Decimal.toRat, Decimal.signed]
  unfold ofParts
  rw [if_neg hm.ne']
  simp only
  split
  · rename_i hpositional
    have hvalue : (((shortest m q).1 * pow10 ((shortest m q).2.toNat + 1) : Nat) : ℚ) *
        10 ^ (-1 : Int) = shortestValue m q := by
      have hpow : (pow10 ((shortest m q).2.toNat + 1) : ℚ) = 10 ^ (shortest m q).2 * 10 := by
        rw [pow10_eq, pow_succ, ← zpow_natCast, Int.toNat_of_nonneg hpositional.1]
      rw [Nat.cast_mul, hpow, shortestValue, zpow_neg_one]
      field_simp
    rw [hsigned, hvalue]
  · exact hsigned _ _

/-- **A decimal that denotes what a double is written as becomes that double.** -/
theorem parts_ofDecimal_exact {x : Float} {c d : Decimal} (hx : exact x = .finite c)
    (hne : d.toRat ≠ 0) (heq : d.toRat = c.toRat) : parts (ofDecimal d) = parts x := by
  obtain ⟨negative, m, q, hparts, hc, hx⟩ := exists_parts_of_exact hx
  have hm : 0 < m := by
    rw [Nat.pos_iff_ne_zero]
    rintro rfl
    apply hne
    rw [heq, ← hx]
    simp [ofParts, Decimal.toRat, Decimal.signed]
  have hreads := shortest_reads q hm hc.lt
  have hpos := hreads.pos hm
  have hvalue : d.toRat = if negative then -shortestValue m q else shortestValue m q := by
    rw [heq, ← hx, toRat_ofParts negative q hm]
  have hsize : |d.toRat| = shortestValue m q := by
    rw [hvalue]
    cases negative
    · exact abs_of_pos hpos
    · exact (abs_neg _).trans (abs_of_pos hpos)
  have hsign : d.negative = negative := by
    have hiff := d.isNegative_iff
    have hzero := mt d.isZero_iff.1 hne
    have hnegative : d.isNegative = d.negative := by
      simp only [Decimal.isNegative]
      simp [hzero]
    rw [hnegative, hvalue] at hiff
    cases negative
    · exact Bool.eq_false_iff.2 fun h => absurd (hiff.1 h) (not_lt.2 hpos.le)
    · exact hiff.2 (neg_neg_iff_pos.2 hpos)
  rw [parts_ofDecimal hc hm (hsize ▸ hreads), hsign, hparts]

end Longhand.Double
