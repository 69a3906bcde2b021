import Mathlib
import Longhand.Double.Text
import Longhand.Proofs.Rational
/-!
# Doubles that stay finite

A number packed into a double becomes an infinity only if its exponent is too large. Rounding a
number below `2 ^ top` to 53 binary digits leaves an exponent of at most `top - 52`
(`fits_roundWithAccuracy`), so quotients and decimals well below the greatest double are finite.
-/

namespace Longhand.Double

open Float.Model Float.Model.UnpackedFloat

theorem two_zpow_pos (e : Int) : (0 : ℚ) < 2 ^ e :=
  zpow_pos (by norm_num) e

theorem two_zpow_add (a b : Int) : (2 : ℚ) ^ (a + b) = 2 ^ a * 2 ^ b :=
  zpow_add₀ (by norm_num) a b

/-! ## Packing -/

/-- The greatest exponent of a double whose significand is a whole number of 53 binary digits. -/
def maxExponent : Int := 971

/-- Zero, or a number whose exponent a double has room for. -/
inductive Fits : UnpackedFloat → Prop
  | zero (s : Sign) : Fits (.zero s)
  | finite (s : Sign) (m : Nat) (e : Int) (hm : 0 < m) (he : e ≤ maxExponent) :
      Fits (.finite s m e hm)

def exponentField (b : BitVec Format.binary64.numBits) : Nat :=
  (@unpackExponent .binary64 b).toNat

theorem exponentField_lt (b : BitVec Format.binary64.numBits) : exponentField b < 2048 :=
  BitVec.isLt _

theorem exponentField_packComponents (s : Sign) (exponent : BitVec 11) (mantissa : BitVec 52) :
    exponentField (packComponents .binary64 s exponent mantissa) = exponent.toNat := by
  rw [exponentField, unpackExponent_packComponents]

/-- Only the greatest exponent field stands for what is not finite. -/
theorem isFinite_unpack (b : BitVec Format.binary64.numBits) :
    (unpack .binary64 b).isFinite = true ↔ exponentField b ≠ 2047 := by
  have hfield : @unpackExponent .binary64 b = -1#_ ↔ exponentField b = 2047 :=
    BitVec.toNat_inj.symm
  unfold UnpackedFloat.unpack
  simp only [hfield]
  by_cases h : exponentField b = 2047
  · rw [if_pos h]
    split <;> simp [UnpackedFloat.isFinite, h]
  · rw [if_neg h]
    split
    · split <;> simp [UnpackedFloat.isFinite, h]
    · simp [UnpackedFloat.isFinite, h]

theorem isFinite_iff (x : Float) :
    x.isFinite = true ↔ exponentField x.toModel.toBits.toBitVec ≠ 2047 :=
  isFinite_unpack _

theorem Fits.isFinite_pack {u : UnpackedFloat} (h : Fits u) :
    (Float.ofModel (Float.Model.pack u)).isFinite = true := by
  change (unpack .binary64 (UnpackedFloat.pack .binary64 u)).isFinite = true
  rw [isFinite_unpack]
  cases h with
  | zero s =>
    rw [UnpackedFloat.pack, packedZero, exponentField_packComponents]
    decide
  | finite s m e hm he =>
    have hbias : Format.binary64.exponentBias = 1023 := by decide
    have hbiased : (e + 1023 + 52).toNat ≤ 2046 := by
      simp only [maxExponent] at he
      omega
    simp only [UnpackedFloat.pack, hbias]
    change exponentField (if 2048 ≤ (e + 1023 + 52).toNat + 1 then _ else _) ≠ 2047
    generalize (e + 1023 + 52).toNat = biased at *
    rw [if_neg (by omega)]
    split
    · have hmod : biased % 2 ^ 11 = biased := Nat.mod_eq_of_lt (by omega)
      rw [exponentField_packComponents, BitVec.toNat_ofNat, hmod]
      omega
    · rw [exponentField_packComponents]
      decide

/-- What a finite double holds: zero, or a number of at most 53 binary digits whose exponent it has
room for. -/
inductive Held : UnpackedFloat → Prop
  | zero (s : Sign) : Held (.zero s)
  | finite (s : Sign) (m : Nat) (e : Int) (hm : 0 < m) (he : e ≤ maxExponent) (hlt : m < 2 ^ 53) :
      Held (.finite s m e hm)

theorem held_of_isFinite {x : Float} (h : x.isFinite = true) : Held x.toModel.unpack := by
  rw [isFinite_iff] at h
  have hlt := exponentField_lt x.toModel.toBits.toBitVec
  unfold Float.Model.unpack UnpackedFloat.unpack
  generalize x.toModel.toBits.toBitVec = b at *
  have hbias : Format.binary64.exponentBias = 1023 := by decide
  have hfield : @unpackExponent .binary64 b ≠ -1#_ := by
    intro heq
    exact h (congrArg BitVec.toNat heq)
  have hexponent : (exponentField b : Int) - (1023 + 52) ≤ maxExponent := by
    simp only [maxExponent]
    omega
  have hmantissa : (@unpackMantissa .binary64 b).toNat < 2 ^ 52 := BitVec.isLt _
  simp only [if_neg hfield, hbias]
  split
  · rename_i hsmall
    have hzero : exponentField b = 0 := congrArg BitVec.toNat hsmall
    split
    · exact .zero _
    · refine .finite _ _ _ _ ?_ (by omega)
      change (exponentField b : Int) - (1023 + 52) + 1 ≤ maxExponent
      simp only [hzero, maxExponent]
      decide
  · refine .finite _ _ _ _ hexponent ?_
    have happend : (1#1 ++ @unpackMantissa .binary64 b).toNat < 2 ^ (1 + 52) :=
      BitVec.isLt _
    exact happend

theorem Held.neg {u : UnpackedFloat} (h : Held u) : Fits u.neg := by
  cases h with
  | zero s => exact .zero _
  | finite s m e hm he hlt => exact .finite _ _ _ _ he

/-- A finite double stays so with the other sign. -/
theorem isFinite_neg {x : Float} (h : x.isFinite = true) : (-x).isFinite = true :=
  (held_of_isFinite h).neg.isFinite_pack

/-! ## Rounding -/

theorem mantissa_shiftRight (em : ExtendedMantissa) (k : Nat) :
    (em >>> k).mantissa = em.mantissa / 2 ^ k := by
  induction k generalizing em with
  | zero => simp [HShiftRight.hShiftRight, Nat.repeat]
  | succ k ih =>
    change (em >>> k).mantissa / 2 = _
    rw [ih, Nat.div_div_eq_div_mul, Nat.pow_succ]

theorem roundedMantissa_le (em : ExtendedMantissa) : em.roundedMantissa ≤ em.mantissa + 1 := by
  obtain ⟨m, r, s⟩ := em
  cases r <;> cases s <;>
    simp [ExtendedMantissa.roundedMantissa, ExtendedMantissa.accuracy, Accuracy.roundToNearestEven]
  omega

/-- The exponent that a number is rounded at. -/
theorem targetExponent_eq (m : Nat) (e : Int) :
    Format.binary64.targetExponent (totalExponent m e) = max (m.log2 + e - 52) (-1074) := by
  simp only [Format.targetExponent, totalExponent, Format.mantissaBits, Format.minExponent]
  norm_num
  omega

theorem log2_lt_or {m : Nat} {e top : Int} (hm : m < 2 ^ (top - e).toNat) :
    m.log2 + e < top ∨ m.log2 = 0 := by
  by_cases hzero : m = 0
  · simp [hzero]
  · have hlog := (Nat.log2_lt hzero).2 hm
    omega

/-- The first shift of a rounding: nothing moves beyond `top`. -/
theorem shiftToTargetExponent_le {m : Nat} {e top : Int} (a : Accuracy) (htop : 0 ≤ top)
    (he : e ≤ top) (hm : m < 2 ^ (top - e).toNat) :
    ∃ em e', shiftToTargetExponent .binary64 m e a = (em, e') ∧ e' = max e
      (max (m.log2 + e - 52) (-1074)) ∧ em.mantissa < 2 ^ (top - e').toNat := by
  let k := (Format.binary64.targetExponent (totalExponent m e) - e).toNat
  have hk : k = (max (m.log2 + e - 52) (-1074) - e).toNat := by
    simp only [k, targetExponent_eq]
  have hlog := log2_lt_or hm
  refine ⟨_, _, rfl, ?_, ?_⟩
  · change e + (k : Int) = _
    omega
  · change (ExtendedMantissa.ofMantissaAndAccuracy m a >>> k).mantissa < 2 ^ (top - (e + k)).toNat
    have hstart : (ExtendedMantissa.ofMantissaAndAccuracy m a).mantissa = m := by
      unfold ExtendedMantissa.ofMantissaAndAccuracy
      split <;> rfl
    have hsplit : (top - e).toNat = (top - (e + k)).toNat + k := by omega
    rw [mantissa_shiftRight, hstart, Nat.div_lt_iff_lt_mul (by positivity), ← Nat.pow_add, ← hsplit]
    exact hm

/-- **A number below `2 ^ top` is rounded to one that a double has room for**, if `top` is below the
greatest power of two. -/
theorem fits_roundWithAccuracy (s : Sign) {m : Nat} {e top : Int} (a : Accuracy) (htop : 0 ≤ top)
    (hroom : top ≤ 1023) (he : e ≤ top) (hexp : e ≤ maxExponent)
    (hm : m < 2 ^ (top - e).toNat) : Fits (roundWithAccuracy .binary64 s m e a) := by
  obtain ⟨em, e₁, hfirst, he₁, hem⟩ := shiftToTargetExponent_le a htop he hm
  have hlog := log2_lt_or hm
  have he₁top : e₁ ≤ top := by omega
  have hrounded : em.roundedMantissa < 2 ^ (top + 1 - e₁).toNat := by
    have hle := roundedMantissa_le em
    have hsplit : (top + 1 - e₁).toNat = (top - e₁).toNat + 1 := by omega
    rw [hsplit, Nat.pow_succ]
    omega
  obtain ⟨em₂, e₂, hsecond, he₂, -⟩ :=
    shiftToTargetExponent_le .exact (by omega) (by omega : e₁ ≤ top + 1) hrounded
  have hlog₂ := log2_lt_or hrounded
  have hlast : e₂ ≤ maxExponent := by
    simp only [maxExponent] at *
    omega
  unfold roundWithAccuracy
  simp only [hfirst, hsecond]
  split
  · exact .zero s
  · exact .finite _ _ _ _ hlast

theorem fits_round (s : Sign) {m : Nat} {e top : Int} (htop : 0 ≤ top) (hroom : top ≤ 1023)
    (he : e ≤ top) (hexp : e ≤ maxExponent) (hm : m < 2 ^ (top - e).toNat) :
    Fits (UnpackedFloat.round .binary64 s m e) := by
  let k := (e - Format.binary64.targetExponent (totalExponent m e)).toNat
  change Fits (roundWithAccuracy .binary64 s (m <<< k) (e - k) .exact)
  have hshifted : m <<< k < 2 ^ (top - (e - k)).toNat := by
    have hsplit : (top - (e - k)).toNat = (top - e).toNat + k := by omega
    rw [Nat.shiftLeft_eq, hsplit, Nat.pow_add]
    exact Nat.mul_lt_mul_of_pos_right hm (by positivity)
  exact fits_roundWithAccuracy s .exact htop hroom (by omega) (by omega) hshifted

/-! ## Quotients -/

section

variable {m₁ m₂ : Nat} {e₁ e₂ top : Int} (hlt : (m₁ : ℚ) * 2 ^ e₁ < 2 ^ top * (m₂ * 2 ^ e₂))

include hlt

/-- A quotient lies between powers of two that the first digits of its parts give. -/
theorem log2_add_lt (h₁ : 0 < m₁) : (m₁.log2 : Int) + e₁ < top + (m₂.log2 + 1 + e₂) := by
  have hlow : (2 : ℚ) ^ (m₁.log2 : Int) ≤ m₁ := by
    rw [zpow_natCast]
    exact_mod_cast Nat.log2_self_le h₁.ne'
  have hhigh : (m₂ : ℚ) < 2 ^ ((m₂.log2 : Int) + 1) := by
    have h : m₂ < 2 ^ (m₂.log2 + 1) := Nat.lt_log2_self
    exact_mod_cast h
  have hpow : (2 : ℚ) ^ ((m₁.log2 : Int) + e₁) < 2 ^ (top + (m₂.log2 + 1 + e₂)) := by
    calc (2 : ℚ) ^ ((m₁.log2 : Int) + e₁)
        = 2 ^ (m₁.log2 : Int) * 2 ^ e₁ := two_zpow_add _ _
      _ ≤ m₁ * 2 ^ e₁ := mul_le_mul_of_nonneg_right hlow (two_zpow_pos _).le
      _ < 2 ^ top * (m₂ * 2 ^ e₂) := hlt
      _ < 2 ^ top * (2 ^ ((m₂.log2 : Int) + 1) * 2 ^ e₂) :=
        mul_lt_mul_of_pos_left (mul_lt_mul_of_pos_right hhigh (two_zpow_pos _)) (two_zpow_pos _)
      _ = 2 ^ (top + (m₂.log2 + 1 + e₂)) := by rw [← two_zpow_add, ← two_zpow_add]
  exact (zpow_lt_zpow_iff_right₀ (by norm_num)).1 hpow

theorem shiftLeft_div_lt (h₂ : 0 < m₂) {te : Int} {shift : Nat}
    (hshift : (shift : Int) = e₁ - e₂ - te) (hte : te ≤ top) :
    (m₁ <<< shift) / m₂ < 2 ^ (top - te).toNat := by
  rw [Nat.div_lt_iff_lt_mul h₂, Nat.shiftLeft_eq]
  have hcast : (m₁ : ℚ) * 2 ^ shift < 2 ^ (top - te).toNat * m₂ := by
    rw [← zpow_natCast, ← zpow_natCast, hshift, Int.toNat_of_nonneg (by omega)]
    calc (m₁ : ℚ) * 2 ^ (e₁ - e₂ - te)
        = m₁ * 2 ^ e₁ * 2 ^ (-e₂ - te) := by
          rw [mul_assoc, ← two_zpow_add]
          congr 2
          ring
      _ < 2 ^ top * (m₂ * 2 ^ e₂) * 2 ^ (-e₂ - te) :=
          mul_lt_mul_of_pos_right hlt (two_zpow_pos _)
      _ = 2 ^ (top - te) * m₂ := by
          have hexponent : top - te = top + (e₂ + (-e₂ - te)) := by ring
          rw [hexponent, two_zpow_add, two_zpow_add]
          ring
  exact_mod_cast hcast

end

/-- **A quotient below `2 ^ top` fits.** -/
theorem fits_div {s₁ s₂ : Sign} {m₁ m₂ : Nat} {e₁ e₂ : Int} (top : Int) (h₁ : 0 < m₁)
    (h₂ : 0 < m₂) (htop : 0 ≤ top) (hroom : top ≤ 1023)
    (hlt : (m₁ : ℚ) * 2 ^ e₁ < 2 ^ top * (m₂ * 2 ^ e₂)) :
    Fits (UnpackedFloat.div .binary64 (.finite s₁ m₁ e₁ h₁) (.finite s₂ m₂ e₂ h₂)) := by
  let te := min (e₁ - e₂)
    (Format.binary64.targetExponent (totalExponent m₁ e₁ - totalExponent m₂ e₂))
  let shift := (e₁ - e₂ - te).toNat
  have hlog := log2_add_lt hlt h₁
  have hte : te ≤ max (top - 53) (-1074) := by
    have htarget : Format.binary64.targetExponent (totalExponent m₁ e₁ - totalExponent m₂ e₂) =
        max (totalExponent m₁ e₁ - totalExponent m₂ e₂ - 53) (-1074) := rfl
    have hle : te ≤ max (totalExponent m₁ e₁ - totalExponent m₂ e₂ - 53) (-1074) :=
      htarget ▸ min_le_right _ _
    simp only [totalExponent] at hle
    omega
  have hshift : (shift : Int) = e₁ - e₂ - te := by
    simp only [shift]
    omega
  have hquotient : (m₁ <<< shift) / m₂ < 2 ^ (top - te).toNat :=
    shiftLeft_div_lt hlt h₂ hshift (by omega)
  have hexponent : te ≤ maxExponent := by
    simp only [maxExponent]
    omega
  exact fits_roundWithAccuracy _ _ htop hroom (by omega) hexponent hquotient

/-! ## Decimals -/

theorem isFinite_toFloat (n : UInt64) : n.toFloat.isFinite = true := by
  have hlt : n.toNat < 2 ^ (64 - 0 : Int).toNat := n.toNat_lt
  have hround : ∀ s : Sign, ∀ m ≤ n.toNat, Fits (UnpackedFloat.round .binary64 s m 0) := by
    intro s m hm
    exact fits_round s (by norm_num) (by norm_num) (by norm_num) (by decide) (hm.trans_lt hlt)
  refine Fits.isFinite_pack (u := UnpackedFloat.normalize .binary64 (n.toNat : Int) 0 .positive) ?_
  unfold UnpackedFloat.normalize
  split
  · exact hround _ _ (by omega)
  · exact .zero _
  · exact hround _ _ (by omega)

/-- A number of 53 binary digits that is two or more. -/
def atLeastTwo : UnpackedFloat → Bool
  | .finite _ m e _ => 2 ^ 52 ≤ m && -51 ≤ e
  | _ => false

theorem exists_of_atLeastTwo {u : UnpackedFloat} (h : atLeastTwo u = true) :
    ∃ s m e hm, u = .finite s m e hm ∧ (2 : ℚ) ≤ m * 2 ^ e := by
  cases u with
  | finite s m e hm =>
    simp only [atLeastTwo, Bool.and_eq_true, decide_eq_true_eq] at h
    obtain ⟨hmantissa, hexponent⟩ := h
    have hcast : (2 : ℚ) ^ 52 ≤ m := by exact_mod_cast hmantissa
    have hpow : (2 : ℚ) ^ (-51 : Int) ≤ 2 ^ e := zpow_le_zpow_right₀ (by norm_num) hexponent
    refine ⟨s, m, e, hm, rfl, ?_⟩
    calc (2 : ℚ) = 2 ^ 52 * 2 ^ (-51 : Int) := by norm_num
      _ ≤ m * 2 ^ e := mul_le_mul hcast hpow (by positivity) (by positivity)
  | _ => simp [atLeastTwo] at h

theorem isFinite_div {x y : Float} (hx : x.isFinite = true)
    (hy : atLeastTwo y.toModel.unpack = true) : (x / y).isFinite = true := by
  refine Fits.isFinite_pack (u := UnpackedFloat.div .binary64 x.toModel.unpack y.toModel.unpack) ?_
  obtain ⟨s₂, m₂, e₂, h₂, hunpack, htwo⟩ := exists_of_atLeastTwo hy
  have hheld := held_of_isFinite hx
  rw [hunpack]
  generalize x.toModel.unpack = u at *
  cases hheld with
  | zero s => exact .zero _
  | finite s m e hm he hlt =>
    refine fits_div 1023 hm h₂ (by norm_num) (by norm_num) ?_
    have hcast : (m : ℚ) < 2 ^ 53 := by exact_mod_cast hlt
    have hpow : (2 : ℚ) ^ e ≤ 2 ^ (971 : Int) := zpow_le_zpow_right₀ (by norm_num) he
    calc (m : ℚ) * 2 ^ e
        < 2 ^ 53 * 2 ^ e := mul_lt_mul_of_pos_right hcast (two_zpow_pos e)
      _ ≤ 2 ^ 53 * 2 ^ (971 : Int) := mul_le_mul_of_nonneg_left hpow (by positivity)
      _ = 2 ^ (1023 : Int) * 2 := by
        have hsplit : (2 : ℚ) ^ (1023 : Int) = 2 ^ (52 : Int) * 2 ^ (971 : Int) := two_zpow_add 52 971
        rw [hsplit]
        ring
      _ ≤ 2 ^ (1023 : Int) * (m₂ * 2 ^ e₂) :=
        mul_le_mul_of_nonneg_left htwo (two_zpow_pos _).le

theorem atLeastTwo_powerOfTen : ∀ e : Fin Float.exactlyRepresentablePowersOfTen.size, e.val ≠ 0 →
    atLeastTwo Float.exactlyRepresentablePowersOfTen[e].toModel.unpack = true := by
  decide +kernel

/-- **The double nearest to a decimal with digits after its point is finite**, unless the decimal is
too large. -/
theorem isFinite_ofScientific {m e : Nat} (he : 0 < e) (h : m < 2 ^ 64 * 10 ^ e) :
    (Float.ofScientific m true e).isFinite = true := by
  unfold Float.ofScientific
  split
  · rename_i hfast
    have hsize : Float.exactlyRepresentablePowersOfTen.size = 23 := rfl
    exact isFinite_div (isFinite_toFloat _) (atLeastTwo_powerOfTen ⟨e, by omega⟩ he.ne')
  · refine Fits.isFinite_pack (u := UnpackedFloat.ofScientific .binary64 m (Int.negOfNat e)) ?_
    have hneg : Int.negOfNat e = -(e : Int) := Int.negOfNat_eq
    rw [hneg]
    unfold UnpackedFloat.ofScientific
    split
    · exact .zero _
    · have hpow : (0 : Int) < 2 ^ Format.exponentBits .binary64 := by positivity
      rw [if_neg (by omega : ¬ -(e : Int) > 2 ^ Format.exponentBits .binary64)]
      split
      · exact .zero _
      · rw [if_neg (by omega)]
        refine fits_div 64 _ _ (by norm_num) (by norm_num) ?_
        rw [neg_neg, Int.toNat_natCast, zpow_zero, mul_one, mul_one]
        exact_mod_cast h

end Longhand.Double
