import Longhand.Proofs.BinaryRounding
import Longhand.Proofs.RoundedDoubles
import Mathlib
/-!
# Doubles and their parts

A significand and an exponent are those of a double if the significand takes at most 53 binary
digits and takes all of them unless the exponent is the least one (`Canonical`). Packing such a
number into a double and unpacking it again loses nothing, and the parts of a double are read off
its unpacked form (`parts_eq`).
-/

namespace Longhand.Double

open Float.Model Float.Model.UnpackedFloat

/-- The significand and the exponent of a finite double. -/
structure Canonical (m : Nat) (q : Int) : Prop where
  lt : m < 2 ^ 53
  least : minExponent ≤ q
  le : q ≤ maxExponent
  leading : 2 ^ 52 ≤ m ∨ q = minExponent

/-! ## Reading the bits -/

theorem toNat_unpackMantissa (b : BitVec Format.binary64.numBits) :
    (@unpackMantissa .binary64 b).toNat = b.toNat % pow2 52 := by
  simp [unpackMantissa, pow2]

theorem toNat_append_unpackMantissa (b : BitVec Format.binary64.numBits) :
    (1#1 ++ @unpackMantissa .binary64 b).toNat = b.toNat % pow2 52 + pow2 52 := by
  have hlt : (@unpackMantissa .binary64 b).toNat < 2 ^ 52 := BitVec.isLt _
  rw [BitVec.toNat_append, ← toNat_unpackMantissa]
  change 1 <<< 52 ||| (@unpackMantissa .binary64 b).toNat = _
  rw [← Nat.shiftLeft_add_eq_or_of_lt hlt, add_comm]
  rfl

def isNegative (s : Sign) : Bool :=
  match s with
  | .negative => true
  | .positive => false

theorem isNegative_unpackSign (b : BitVec Format.binary64.numBits) :
    isNegative (Sign.ofBitVec (@unpackSign .binary64 b)) = decide (pow2 63 ≤ b.toNat) := by
  have hlt : b.toNat < 2 ^ 64 := b.isLt
  have hbit : (@unpackSign .binary64 b).toNat = b.toNat / 2 ^ 63 % 2 := by
    simp [unpackSign, Nat.shiftRight_eq_div_pow]
  have hpow : pow2 63 = 2 ^ 63 := rfl
  rw [hpow]
  unfold Sign.ofBitVec
  split
  · rename_i hzero
    have hnone : (@unpackSign .binary64 b).toNat = 0 := congrArg BitVec.toNat hzero
    exact (decide_eq_false (by omega)).symm
  · rename_i hone
    have hne : (@unpackSign .binary64 b).toNat ≠ 0 := by
      intro hzero
      exact hone (BitVec.eq_of_toNat_eq hzero)
    exact (decide_eq_true (by omega)).symm

def Parts.ofUnpacked : UnpackedFloat → Parts
  | .notANumber => .nan
  | .infinity s => .infinity (isNegative s)
  | .zero s => .finite (isNegative s) 0 minExponent
  | .finite s m q _ => .finite (isNegative s) m q

/-- **The parts of a double are those of its unpacked form.** -/
theorem parts_eq (x : Float) : parts x = .ofUnpacked x.toModel.unpack := by
  unfold Float.Model.unpack parts
  change _ = Parts.ofUnpacked (UnpackedFloat.unpack .binary64 x.toBits.toBitVec)
  have hnat : x.toBits.toNat = x.toBits.toBitVec.toNat := rfl
  rw [hnat]
  generalize x.toBits.toBitVec = b
  have hfield : b.toNat / pow2 52 % pow2 11 = exponentField b := (exponentField_eq b).symm
  have hsign := isNegative_unpackSign b
  have hexponent (n : Nat) (hn : n < 2048) :
      @unpackExponent .binary64 b = BitVec.ofNat 11 n ↔ exponentField b = n := by
    rw [← BitVec.toNat_inj]
    change exponentField b = n % 2048 ↔ _
    rw [Nat.mod_eq_of_lt hn]
  have hall : @unpackExponent .binary64 b = -1#_ ↔ exponentField b = 2047 :=
    hexponent 2047 (by norm_num)
  have hnone : @unpackExponent .binary64 b = 0#_ ↔ exponentField b = 0 :=
    hexponent 0 (by norm_num)
  have htail : @unpackMantissa .binary64 b = 0#_ ↔ b.toNat % pow2 52 = 0 := by
    rw [← toNat_unpackMantissa, ← BitVec.toNat_inj]
    rfl
  have hbias : Format.binary64.exponentBias = 1023 := by decide
  have h11 : pow2 11 - 1 = 2047 := rfl
  unfold UnpackedFloat.unpack
  simp only [hall, hnone, htail, hbias, hfield, h11]
  rcases eq_or_ne (exponentField b) 2047 with hlast | hlast
  · rw [if_pos hlast, if_pos hlast]
    split
    · exact congrArg Parts.infinity hsign.symm
    · rfl
  · rw [if_neg hlast, if_neg hlast]
    rcases eq_or_ne (exponentField b) 0 with hfirst | hfirst
    · rw [if_pos hfirst, if_pos hfirst]
      split
      · rename_i hzero
        rw [hzero]
        exact congrArg (Parts.finite · 0 minExponent) hsign.symm
      · change _ = Parts.finite (isNegative (Sign.ofBitVec (@unpackSign .binary64 b)))
          (@unpackMantissa .binary64 b).toNat ((exponentField b : Int) - (1023 + 52) + 1)
        rw [hsign, toNat_unpackMantissa, hfirst]
        rfl
    · rw [if_neg hfirst, if_neg hfirst]
      change _ = Parts.finite (isNegative (Sign.ofBitVec (@unpackSign .binary64 b)))
        (1#1 ++ @unpackMantissa .binary64 b).toNat ((exponentField b : Int) - (1023 + 52))
      rw [hsign, toNat_append_unpackMantissa]
      refine congrArg (Parts.finite _ _) ?_
      simp only [minExponent]
      omega

/-- A finite double has a canonical significand and exponent. -/
theorem canonical_parts {x : Float} {negative : Bool} {m : Nat} {q : Int}
    (h : parts x = .finite negative m q) : Canonical m q := by
  have hfield : x.toBits.toNat / pow2 52 % pow2 11 < pow2 11 := Nat.mod_lt _ (by decide)
  have htail : x.toBits.toNat % pow2 52 < pow2 52 := Nat.mod_lt _ (by decide)
  have h11 : pow2 11 = 2048 := rfl
  have h52 : pow2 52 = 2 ^ 52 := rfl
  unfold parts at h
  simp only at h
  generalize x.toBits.toNat / pow2 52 % pow2 11 = biased at *
  generalize x.toBits.toNat % pow2 52 = tail at *
  rw [h11, h52] at *
  simp only [minExponent] at *
  split at h
  · split at h <;> cases h
  · split at h
    · cases h
      exact ⟨by omega, le_rfl, by decide, .inr rfl⟩
    · cases h
      exact ⟨by omega, by simp only [minExponent]; omega, by simp only [maxExponent]; omega,
        .inl (by omega)⟩

/-- A double that is written as a decimal is finite, and its parts give the decimal. -/
theorem exists_parts_of_exact {x : Float} {d : Decimal} (h : exact x = .finite d) :
    ∃ negative m q, parts x = .finite negative m q ∧ Canonical m q ∧ ofParts negative m q = d := by
  unfold exact at h
  cases hparts : parts x with
  | nan => simp [hparts] at h
  | infinity negative => simp [hparts] at h
  | finite negative m q =>
    simp only [hparts, DecimalValue.finite.injEq] at h
    exact ⟨negative, m, q, rfl, canonical_parts hparts, h⟩

theorem canonical_unpack {x : Float} {s : Sign} {m : Nat} {q : Int} {h : 0 < m}
    (hunpack : x.toModel.unpack = .finite s m q h) : Canonical m q := by
  have hparts := parts_eq x
  rw [hunpack] at hparts
  exact canonical_parts hparts

/-! ## Packing -/

theorem unpack_pack_zero (s : Sign) : (Float.Model.pack (.zero s)).unpack = .zero s :=
  unpack_packedZero

/-- A number with too great an exponent is packed into an infinity. -/
theorem unpack_pack_of_lt (s : Sign) {m : Nat} {e : Int} (hm : 0 < m) (he : maxExponent < e) :
    (Float.Model.pack (.finite s m e hm)).unpack = .infinity s := by
  have hbias : Format.binary64.exponentBias = 1023 := by decide
  have hbiased : 2048 ≤ (e + 1023 + 52).toNat + 1 := by
    simp only [maxExponent] at he
    omega
  have hinfinity : UnpackedFloat.pack .binary64 (.finite s m e hm) = packedInfinity .binary64 s := by
    simp only [UnpackedFloat.pack, hbias]
    exact if_pos hbiased
  change UnpackedFloat.unpack .binary64 (UnpackedFloat.pack .binary64 (.finite s m e hm)) = _
  rw [hinfinity]
  cases s <;> rfl

/-- **A canonical number is packed into the double that holds it.** -/
theorem unpack_pack {m : Nat} {q : Int} (hc : Canonical m q) (s : Sign) (hm : 0 < m) :
    (Float.Model.pack (.finite s m q hm)).unpack = .finite s m q hm := by
  obtain ⟨hlt, hleast, hle, hleading⟩ := hc
  simp only [minExponent, maxExponent] at *
  let biased := (q + 1023 + 52).toNat
  have hbiased : biased + 1 < 2048 ∧ 0 < biased := by
    simp only [biased]
    omega
  have hsign : Sign.ofBitVec s.toBitVec = s := by cases s <;> rfl
  have hfield (n : Nat) (hn : n < 2048) : (BitVec.ofNat 11 n).toNat = n :=
    (BitVec.toNat_ofNat ..).trans (Nat.mod_eq_of_lt hn)
  have hall : BitVec.ofNat 11 biased ≠ -1#11 := by
    intro heq
    have h := congrArg BitVec.toNat heq
    rw [hfield biased (by omega)] at h
    have hones : (-1#11).toNat = 2047 := rfl
    omega
  have hnone : BitVec.ofNat 11 biased ≠ 0#11 := by
    intro heq
    have h := congrArg BitVec.toNat heq
    rw [hfield biased (by omega)] at h
    have hzero : (0#11).toNat = 0 := rfl
    omega
  change UnpackedFloat.unpack .binary64 (if 2048 ≤ biased + 1 then _
    else if m.log2 + 1 = 53 then packComponents .binary64 s (BitVec.ofNat 11 biased) (BitVec.ofNat 52 m)
    else packComponents .binary64 s 0#11 (BitVec.ofNat 52 m)) = _
  rw [if_neg (by omega)]
  rcases le_or_gt (2 ^ 52) m with hnormal | hsmall
  · have hlog : m.log2 + 1 = 53 := by
      rw [(Nat.log2_eq_iff hm.ne').2 ⟨hnormal, hlt⟩]
    have happend : (1#1 ++ BitVec.ofNat 52 m).toNat = m := by
      have hmod : (BitVec.ofNat 52 m).toNat = m - 2 ^ 52 := by
        rw [BitVec.toNat_ofNat]
        omega
      rw [BitVec.toNat_append, ← Nat.shiftLeft_add_eq_or_of_lt (BitVec.isLt _), hmod]
      change 1 <<< 52 + (m - 2 ^ 52) = m
      omega
    rw [if_pos hlog]
    unfold UnpackedFloat.unpack
    simp only [unpackMantissa_packComponents, unpackExponent_packComponents,
      unpackSign_packComponents, hsign]
    rw [if_neg hall, if_neg hnone]
    congr 1
    change ((BitVec.ofNat 11 biased).toNat : Int) - (1023 + 52) = q
    rw [hfield biased (by omega)]
    omega
  · have hq : q = -1074 := by omega
    have hlog : m.log2 + 1 ≠ 53 := by
      have h := (Nat.log2_lt hm.ne').2 hsmall
      omega
    have hmantissa : (BitVec.ofNat 52 m).toNat = m :=
      (BitVec.toNat_ofNat ..).trans (Nat.mod_eq_of_lt hsmall)
    have hne : BitVec.ofNat 52 m ≠ 0#52 := by
      intro heq
      have h := congrArg BitVec.toNat heq
      rw [hmantissa] at h
      exact hm.ne' h
    rw [if_neg hlog]
    unfold UnpackedFloat.unpack
    simp only [unpackMantissa_packComponents, unpackExponent_packComponents,
      unpackSign_packComponents, hsign]
    rw [if_neg (by decide : ¬ (0#11 = -1#11)), if_pos trivial, dif_neg hne]
    congr 1
    rw [hq]
    rfl

end Longhand.Double
