import Longhand.Proofs.FiniteDoubles
/-!
# Rounding to binary digits

A positive number is rounded to a whole number of units `2 ^ t`, where `t` leaves room for 53 binary
digits and is at least the least exponent of a double (`Rounds`). The significand, the rounding bit
and the sticky bit stand for the number itself as it is shifted (`Represents`), so rounding with
them gives the nearest whole number of units, and of two the even one. This holds for products, for
quotients and for whole numbers of any power of two: each is the exact result, rounded once.
-/

namespace Longhand.Double

open Float.Model Float.Model.UnpackedFloat

/-! ## The nearest whole number -/

/-- `n` is the whole number nearest to `y`, and of two that are equally near the even one. -/
structure Nearest (y : ℚ) (n : Nat) : Prop where
  low : (n : ℚ) - 1 / 2 ≤ y
  high : y ≤ n + 1 / 2
  even : y = n - 1 / 2 ∨ y = n + 1 / 2 → n % 2 = 0

theorem Nearest.le_of {y : ℚ} {n k : Nat} (h : Nearest y n) (h' : Nearest y k) : n ≤ k := by
  by_contra hlt
  have hle : (k : ℚ) + 1 ≤ n := by exact_mod_cast not_le.1 hlt
  -- both are a half away from `y`, so both are even, but they are neighbours
  have hy : y = n - 1 / 2 ∧ y = k + 1 / 2 := by
    have hlow := h.low
    have hhigh := h'.high
    constructor <;> linarith
  have hn := h.even (.inl hy.1)
  have hk := h'.even (.inr hy.2)
  have heq : n = k + 1 := by
    have hcast : (n : ℚ) = k + 1 := by linarith [hy.1, hy.2]
    exact_mod_cast hcast
  omega

theorem Nearest.unique {y : ℚ} {n k : Nat} (h : Nearest y n) (h' : Nearest y k) : n = k :=
  le_antisymm (h.le_of h') (h'.le_of h)

theorem nearest_natCast (n : Nat) : Nearest n n where
  low := by linarith
  high := by linarith
  even := by
    rintro (h | h) <;> linarith

/-! ## The rounding bits -/

/-- What the rounding bit and the sticky bit tell of a number with this whole part. -/
def Represents : ExtendedMantissa → ℚ → Prop
  | ⟨m, false, false⟩, y => y = m
  | ⟨m, false, true⟩, y => m < y ∧ y < m + 1 / 2
  | ⟨m, true, false⟩, y => y = m + 1 / 2
  | ⟨m, true, true⟩, y => m + 1 / 2 < y ∧ y < m + 1

theorem represents_exact (m : Nat) : Represents (.ofMantissaAndAccuracy m .exact) m := rfl

theorem Represents.shiftRightOne {em : ExtendedMantissa} {y : ℚ} (h : Represents em y) :
    Represents em.shiftRightOne (y / 2) := by
  obtain ⟨m, r, s⟩ := em
  have hsplit : ((m / 2 : Nat) : ℚ) * 2 + (m % 2 : Nat) = m := by
    exact_mod_cast Nat.div_add_mod' m 2
  rcases Nat.mod_two_eq_zero_or_one m with hbit | hbit <;> rw [hbit] at hsplit <;>
    cases r <;> cases s <;>
    simp only [Represents, ExtendedMantissa.shiftRightOne, hbit, bne_self_eq_false, Bool.or_false,
      Bool.or_true, Bool.or_self, Nat.cast_zero, Nat.cast_one, add_zero,
      show (1 != 0) = true from rfl] at h hsplit ⊢ <;>
    first
      | (constructor <;> linarith)
      | linarith

theorem Represents.shiftRight {em : ExtendedMantissa} {y : ℚ} (h : Represents em y) (k : Nat) :
    Represents (em >>> k) (y / 2 ^ k) := by
  induction k with
  | zero =>
    rw [pow_zero, div_one]
    exact h
  | succ k ih =>
    rw [pow_succ, ← div_div]
    exact ih.shiftRightOne

theorem Represents.nearest {em : ExtendedMantissa} {y : ℚ} (h : Represents em y) :
    Nearest y em.roundedMantissa := by
  obtain ⟨m, r, s⟩ := em
  cases r <;> cases s <;>
    simp only [Represents, ExtendedMantissa.roundedMantissa, ExtendedMantissa.accuracy,
      Accuracy.roundToNearestEven] at h ⊢
  · rw [h]
    exact nearest_natCast m
  · exact ⟨by linarith, by linarith, by rintro (hy | hy) <;> linarith⟩
  · -- half way between `m` and `m + 1`
    rcases Nat.mod_two_eq_zero_or_one m with hbit | hbit <;> rw [hbit]
    · exact ⟨by push_cast; linarith, by push_cast; linarith, fun _ => by omega⟩
    · exact ⟨by push_cast; linarith, by push_cast; linarith, fun _ => by omega⟩
  · refine ⟨by push_cast; linarith, by push_cast; linarith, ?_⟩
    push_cast
    rintro (hy | hy) <;> linarith

/-- The whole part of what is represented. -/
theorem Represents.floor {em : ExtendedMantissa} {y : ℚ} (h : Represents em y) :
    (em.mantissa : ℚ) ≤ y ∧ y < em.mantissa + 1 := by
  obtain ⟨m, r, s⟩ := em
  cases r <;> cases s <;> simp only [Represents] at h ⊢ <;> constructor <;> linarith

/-- The digits of a fraction and what is left of it. -/
theorem represents_fraction (m : Nat) {d : Nat} (hd : 0 < d) :
    Represents (.ofMantissaAndAccuracy (m / d) (accuracyOfFraction (m % d) d)) (m / d : ℚ) := by
  have hpos : (0 : ℚ) < d := by exact_mod_cast hd
  have hrest : m % d < d := Nat.mod_lt m hd
  have hrestCast : ((m % d : Nat) : ℚ) < d := by exact_mod_cast hrest
  have hsplit : (m / d : ℚ) = (m / d : Nat) + (m % d : Nat) / d := by
    rw [add_div' _ _ _ hpos.ne', div_left_inj' hpos.ne']
    exact_mod_cast (Nat.div_add_mod' m d).symm
  rw [hsplit]
  generalize m / d = whole
  generalize m % d = rest at *
  unfold accuracyOfFraction
  split
  · rename_i hzero
    rw [hzero, Nat.cast_zero, zero_div, add_zero]
    exact represents_exact whole
  · rename_i hzero
    have hrestPos : (0 : ℚ) < rest := by exact_mod_cast Nat.pos_of_ne_zero hzero
    have hlow : (0 : ℚ) < rest / d := div_pos hrestPos hpos
    have hhigh : (rest : ℚ) / d < 1 := (div_lt_one hpos).2 hrestCast
    rcases lt_trichotomy (2 * rest) d with hlt | heq | hgt
    · have hcast : (rest : ℚ) * 2 < 1 * d := by
        have h : ((2 * rest : Nat) : ℚ) < d := by exact_mod_cast hlt
        push_cast at h
        linarith
      have hhalf : (rest : ℚ) / d < 1 / 2 := (div_lt_div_iff₀ hpos two_pos).2 hcast
      rw [Nat.compare_eq_lt.2 hlt]
      exact ⟨by linarith, by linarith⟩
    · have hhalf : (rest : ℚ) / d = 1 / 2 := by
        rw [div_eq_div_iff hpos.ne' two_ne_zero]
        have h : ((2 * rest : Nat) : ℚ) = d := by exact_mod_cast heq
        push_cast at h
        linarith
      rw [Nat.compare_eq_eq.2 heq, hhalf]
      rfl
    · have hcast : 1 * (d : ℚ) < rest * 2 := by
        have h : (d : ℚ) < (2 * rest : Nat) := by exact_mod_cast hgt
        push_cast at h
        linarith
      have hhalf : (1 : ℚ) / 2 < rest / d := (div_lt_div_iff₀ two_pos hpos).2 hcast
      rw [Nat.compare_eq_gt.2 hgt]
      exact ⟨by linarith, by linarith⟩

/-! ## Rounding once -/

/-- `2 ^ t` is the unit in which a number of this size is rounded. -/
structure RoundingUnit (v : ℚ) (t : Int) : Prop where
  least : minExponent ≤ t
  lt : v < 2 ^ (53 + t)
  leading : t = minExponent ∨ 2 ^ (52 + t) ≤ v

/-- `v` is rounded to `n` units of `2 ^ t`. -/
structure Rounds (v : ℚ) (n : Nat) (t : Int) : Prop where
  unit : RoundingUnit v t
  nearest : Nearest (v / 2 ^ t) n

theorem RoundingUnit.le_of {v : ℚ} {t u : Int} (h : RoundingUnit v t) (h' : RoundingUnit v u) : t ≤ u := by
  rcases h.leading with hleast | hleading
  · rw [hleast]
    exact h'.least
  · have hpow : (2 : ℚ) ^ (52 + t) < 2 ^ (53 + u) := hleading.trans_lt h'.lt
    have hexp := (zpow_lt_zpow_iff_right₀ (by norm_num : (1 : ℚ) < 2)).1 hpow
    omega

theorem Rounds.unique {v : ℚ} {n k : Nat} {t u : Int} (h : Rounds v n t) (h' : Rounds v k u) :
    n = k ∧ t = u := by
  obtain rfl : t = u := le_antisymm (h.unit.le_of h'.unit) (h'.unit.le_of h.unit)
  exact ⟨h.nearest.unique h'.nearest, rfl⟩

/-- Rounding up may take one digit more, which is a zero. -/
theorem Rounds.le {v : ℚ} {n : Nat} {t : Int} (h : Rounds v n t) : n ≤ 2 ^ 53 := by
  have hlt : v / 2 ^ t < 2 ^ 53 := by
    rw [div_lt_iff₀ (two_zpow_pos t), ← zpow_natCast, ← two_zpow_add]
    exact h.unit.lt
  have hcast : (n : ℚ) < 2 ^ 53 + 1 := by linarith [h.nearest.low]
  exact Nat.lt_succ_iff.1 (by exact_mod_cast hcast)

theorem Rounds.leading {v : ℚ} {n : Nat} {t : Int} (h : Rounds v n t) :
    2 ^ 52 ≤ n ∨ t = minExponent := by
  rcases h.unit.leading with hleast | hleading
  · exact .inr hleast
  · have hle : (2 : ℚ) ^ 52 ≤ v / 2 ^ t := by
      rw [le_div_iff₀ (two_zpow_pos t), ← zpow_natCast, ← two_zpow_add]
      exact hleading
    have hcast : (2 : ℚ) ^ 52 < n + 1 := by linarith [h.nearest.high]
    exact .inl (Nat.lt_succ_iff.1 (by exact_mod_cast hcast))

/-- The number of `n` units of `2 ^ t`, with at most 53 digits. -/
def carried (s : Sign) (n : Nat) (t : Int) : UnpackedFloat :=
  if h : n = 0 then .zero s
  else if n < 2 ^ 53 then .finite s n t (Nat.pos_of_ne_zero h)
  else .finite s (2 ^ 52) (t + 1) (by decide)

/-- The exponent of the unit in which a number with this whole part is rounded. -/
theorem roundingUnit_target {m : Nat} {e : Int} {y : ℚ} (hlow : m ≤ y) (hhigh : y < m + 1)
    (he : e ≤ max (m.log2 + e - 52) minExponent) :
    RoundingUnit (y * 2 ^ e) (max (m.log2 + e - 52) minExponent) := by
  have hfirst : y * 2 ^ e < 2 ^ ((m.log2 : Int) + 1 + e) := by
    have hlog : m < 2 ^ (m.log2 + 1) := Nat.lt_log2_self
    have hcast : (m : ℚ) + 1 ≤ 2 ^ ((m.log2 : Int) + 1) := by exact_mod_cast hlog
    rw [two_zpow_add]
    exact mul_lt_mul_of_pos_right (hhigh.trans_le hcast) (two_zpow_pos e)
  refine ⟨le_max_right _ _, hfirst.trans_le (zpow_le_zpow_right₀ (by norm_num) (by omega)), ?_⟩
  rcases le_or_gt ((m.log2 : Int) + e - 52) minExponent with hle | hgt
  · exact .inl (max_eq_right hle)
  · rw [max_eq_left hgt.le] at he ⊢
    have hne : m ≠ 0 := by
      rintro rfl
      simp only [Nat.log2_zero] at he
      omega
    have hcast : (2 : ℚ) ^ (m.log2 : Int) ≤ m := by
      rw [zpow_natCast]
      exact_mod_cast Nat.log2_self_le hne
    refine .inr ?_
    rw [add_sub_cancel, two_zpow_add]
    exact mul_le_mul_of_nonneg_right (hcast.trans hlow) (two_zpow_pos e).le

theorem shiftToTargetExponent_exact {n : Nat} {t : Int} (hn : n ≤ 2 ^ 53) (ht : minExponent ≤ t) :
    shiftToTargetExponent .binary64 n t .exact =
      if n < 2 ^ 53 then (⟨n, false, false⟩, t) else (⟨2 ^ 52, false, false⟩, t + 1) := by
  change (ExtendedMantissa.mk n false false >>>
      (Format.binary64.targetExponent (totalExponent n t) - t).toNat,
    t + ((Format.binary64.targetExponent (totalExponent n t) - t).toNat : Int)) = _
  rw [targetExponent_eq]
  simp only [minExponent] at ht
  split
  · rename_i hlt
    have hlog : n.log2 < 53 := by
      rcases Nat.eq_zero_or_pos n with rfl | hpos
      · decide
      · exact (Nat.log2_lt hpos.ne').2 hlt
    have hshift : (max ((n.log2 : Int) + t - 52) (-1074) - t).toNat = 0 := by omega
    rw [hshift, Nat.cast_zero, add_zero]
    rfl
  · obtain rfl : n = 2 ^ 53 := by omega
    have hshift : (max (((2 ^ 53 : Nat).log2 : Int) + t - 52) (-1074) - t).toNat = 1 := by
      rw [Nat.log2_two_pow]
      omega
    rw [hshift]
    rfl

/-- **Rounding with the rounding bits rounds the number that they stand for.** -/
theorem roundWithAccuracy_eq (s : Sign) {m : Nat} {e : Int} {a : Accuracy} {y : ℚ}
    (h : Represents (.ofMantissaAndAccuracy m a) y)
    (he : e ≤ max (m.log2 + e - 52) minExponent) :
    ∃ n t, Rounds (y * 2 ^ e) n t ∧
      roundWithAccuracy .binary64 s m e a = carried s n t := by
  let t := max ((m.log2 : Int) + e - 52) minExponent
  let em := ExtendedMantissa.ofMantissaAndAccuracy m a >>> (t - e).toNat
  have hm : (ExtendedMantissa.ofMantissaAndAccuracy m a).mantissa = m := by
    unfold ExtendedMantissa.ofMantissaAndAccuracy
    split <;> rfl
  have hfirst : shiftToTargetExponent .binary64 m e a = (em, t) := by
    change (ExtendedMantissa.ofMantissaAndAccuracy m a >>>
        (Format.binary64.targetExponent (totalExponent m e) - e).toNat,
      e + ((Format.binary64.targetExponent (totalExponent m e) - e).toNat : Int)) = (em, t)
    rw [targetExponent_eq]
    exact Prod.ext rfl (by change e + ((t - e).toNat : Int) = t; omega)
  have hfloor := h.floor
  rw [hm] at hfloor
  have hrounds : Rounds (y * 2 ^ e) em.roundedMantissa t := by
    refine ⟨roundingUnit_target hfloor.1 hfloor.2 he, ?_⟩
    have hunits : y * 2 ^ e / 2 ^ t = y / 2 ^ (t - e).toNat := by
      have hsplit : (2 : ℚ) ^ t = 2 ^ (t - e).toNat * 2 ^ e := by
        rw [← zpow_natCast, ← two_zpow_add]
        congr 1
        omega
      rw [hsplit, mul_div_mul_right _ _ (two_zpow_pos e).ne']
    rw [hunits]
    exact (h.shiftRight _).nearest
  refine ⟨em.roundedMantissa, t, hrounds, ?_⟩
  have hsecond := shiftToTargetExponent_exact hrounds.le hrounds.unit.least
  rw [roundWithAccuracy, hfirst]
  dsimp only
  by_cases hlt : em.roundedMantissa < 2 ^ 53
  · rw [if_pos hlt] at hsecond
    rw [hsecond, carried]
    simp only [if_pos hlt]
  · have hne : em.roundedMantissa ≠ 0 := by omega
    rw [if_neg hlt] at hsecond
    rw [hsecond, carried, dif_neg hne, if_neg hlt]
    rfl

/-! ## Whole numbers of a power of two, products and quotients -/

theorem log2_shiftLeft {m : Nat} (hm : 0 < m) (k : Nat) : (m <<< k).log2 = m.log2 + k := by
  rw [Nat.shiftLeft_eq, Nat.log2_eq_iff (Nat.mul_pos hm (by positivity)).ne']
  constructor
  · rw [Nat.pow_add]
    exact Nat.mul_le_mul_right _ (Nat.log2_self_le hm.ne')
  · rw [add_right_comm, Nat.pow_add]
    exact Nat.mul_lt_mul_of_pos_right Nat.lt_log2_self (by positivity)

/-- A whole number of a power of two is rounded. -/
theorem round_eq (s : Sign) {m : Nat} (hm : 0 < m) (e : Int) :
    ∃ n t, Rounds (m * 2 ^ e) n t ∧ UnpackedFloat.round .binary64 s m e = carried s n t := by
  let k := (e - Format.binary64.targetExponent (totalExponent m e)).toNat
  have hk : k = (e - max ((m.log2 : Int) + e - 52) (-1074)).toNat := by
    simp only [k, targetExponent_eq]
  have hlog : (m <<< k).log2 = m.log2 + k := log2_shiftLeft hm k
  have he : e - k ≤ max (((m <<< k).log2 : Int) + (e - k) - 52) minExponent := by
    rw [hlog]
    simp only [minExponent]
    omega
  obtain ⟨n, t, hrounds, hround⟩ := roundWithAccuracy_eq s (represents_exact (m <<< k)) he
  refine ⟨n, t, ?_, hround⟩
  have hvalue : ((m <<< k : Nat) : ℚ) * 2 ^ (e - k) = m * 2 ^ e := by
    rw [Nat.shiftLeft_eq]
    push_cast
    rw [mul_assoc, ← zpow_natCast, ← two_zpow_add, add_sub_cancel]
  rwa [hvalue] at hrounds

/-- **A product is the exact product, rounded**, if it has no unit that is too large. -/
theorem mul_eq {s₁ s₂ : Sign} {m₁ m₂ : Nat} {e₁ e₂ : Int} (h₁ : 0 < m₁) (h₂ : 0 < m₂)
    (he : 52 ≤ (m₁ * m₂).log2 ∨ e₁ + e₂ ≤ minExponent) :
    ∃ n t, Rounds (m₁ * 2 ^ e₁ * (m₂ * 2 ^ e₂)) n t ∧
      UnpackedFloat.mul .binary64 (.finite s₁ m₁ e₁ h₁) (.finite s₂ m₂ e₂ h₂) =
        carried (s₁ * s₂) n t := by
  have hroom : e₁ + e₂ ≤ max (((m₁ * m₂).log2 : Int) + (e₁ + e₂) - 52) minExponent := by
    omega
  obtain ⟨n, t, hrounds, hround⟩ :=
    roundWithAccuracy_eq (s₁ * s₂) (represents_exact (m₁ * m₂)) hroom
  refine ⟨n, t, ?_, hround⟩
  have hvalue : ((m₁ * m₂ : Nat) : ℚ) * 2 ^ (e₁ + e₂) = m₁ * 2 ^ e₁ * (m₂ * 2 ^ e₂) := by
    rw [two_zpow_add]
    push_cast
    ring
  rwa [hvalue] at hrounds

/-- **A quotient is the exact quotient, rounded.** -/
theorem div_eq {s₁ s₂ : Sign} {m₁ m₂ : Nat} {e₁ e₂ : Int} (h₁ : 0 < m₁) (h₂ : 0 < m₂) :
    ∃ n t, Rounds (m₁ * 2 ^ e₁ / (m₂ * 2 ^ e₂)) n t ∧
      UnpackedFloat.div .binary64 (.finite s₁ m₁ e₁ h₁) (.finite s₂ m₂ e₂ h₂) =
        carried (s₁ / s₂) n t := by
  let te := min (e₁ - e₂)
    (Format.binary64.targetExponent (totalExponent m₁ e₁ - totalExponent m₂ e₂))
  let shift := (e₁ - e₂ - te).toNat
  have htarget : te = min (e₁ - e₂)
      (max ((m₁.log2 : Int) + 1 + e₁ - (m₂.log2 + 1 + e₂) - 53) minExponent) := rfl
  have hshift : (shift : Int) = e₁ - e₂ - te := by
    simp only [shift]
    omega
  -- the quotient has 53 digits, or its unit is the least one
  have hroom : te ≤ max (((m₁ <<< shift / m₂).log2 : Int) + te - 52) minExponent := by
    rcases le_or_gt te minExponent with hle | hgt
    · exact hle.trans (le_max_right _ _)
    · have hlogs : m₂.log2 + 53 ≤ m₁.log2 + shift := by omega
      have hquotient : 2 ^ 52 ≤ m₁ <<< shift / m₂ := by
        rw [Nat.le_div_iff_mul_le h₂, Nat.shiftLeft_eq]
        calc 2 ^ 52 * m₂ ≤ 2 ^ 52 * 2 ^ (m₂.log2 + 1) :=
              Nat.mul_le_mul_left _ (Nat.lt_log2_self).le
          _ = 2 ^ (m₂.log2 + 53) := by rw [← Nat.pow_add]; congr 1; omega
          _ ≤ 2 ^ (m₁.log2 + shift) := Nat.pow_le_pow_right (by norm_num) hlogs
          _ = 2 ^ m₁.log2 * 2 ^ shift := Nat.pow_add ..
          _ ≤ m₁ * 2 ^ shift := Nat.mul_le_mul_right _ (Nat.log2_self_le h₁.ne')
      have hlog : 52 ≤ (m₁ <<< shift / m₂).log2 := by
        have hne : m₁ <<< shift / m₂ ≠ 0 := by
          have hpos : 0 < 2 ^ 52 := by norm_num
          omega
        exact (Nat.le_log2 hne).2 hquotient
      omega
  obtain ⟨n, t, hrounds, hround⟩ :=
    roundWithAccuracy_eq (s₁ / s₂) (represents_fraction (m₁ <<< shift) h₂) hroom
  refine ⟨n, t, ?_, hround⟩
  have hvalue : ((m₁ <<< shift : Nat) : ℚ) / m₂ * 2 ^ te = m₁ * 2 ^ e₁ / (m₂ * 2 ^ e₂) := by
    have hsplit : e₁ = shift + te + e₂ := by omega
    have hden : (m₂ : ℚ) ≠ 0 := by exact_mod_cast h₂.ne'
    rw [Nat.shiftLeft_eq]
    push_cast
    rw [hsplit, two_zpow_add, two_zpow_add, zpow_natCast, div_mul_eq_mul_div,
      div_eq_div_iff hden (mul_ne_zero hden (two_zpow_pos e₂).ne')]
    ring
  rwa [hvalue] at hrounds

end Longhand.Double
