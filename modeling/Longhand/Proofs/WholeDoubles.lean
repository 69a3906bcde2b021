import Longhand.Proofs.WrittenNumbers
/-!
# Arithmetic on whole doubles is exact

A sum, a difference or a product of whole doubles is rounded once, and not at all if the exact
result has at most 53 binary digits. So whole doubles calculate like integers there. A numeral of
such a whole number is read as that number.
-/

namespace Longhand.Double

open Float.Model Float.Model.UnpackedFloat

/-! ## The number that an unpacked double is -/

def signed (s : Sign) (v : ℚ) : ℚ :=
  match s with
  | .negative => -v
  | .positive => v

theorem signed_neg (s : Sign) (v : ℚ) : signed (-s) v = -signed s v := by
  cases s
  · exact (neg_neg v).symm
  · rfl

theorem signed_mul (s t : Sign) (v w : ℚ) : signed (s * t) (v * w) = signed s v * signed t w := by
  cases s <;> cases t <;> simp [signed]

/-- The size of an integer that has a sign. -/
theorem natAbs_of_signed {s : Sign} {v : ℚ} {z : Int} (hv : 0 ≤ v) (h : signed s v = z) :
    (z.natAbs : ℚ) = v := by
  rw [Nat.cast_natAbs, Int.cast_abs, ← h]
  cases s <;> simp [signed, abs_of_nonneg hv]

def unpackedRat? : UnpackedFloat → Option ℚ
  | .zero _ => some 0
  | .finite s m q _ => some (signed s (m * 2 ^ q))
  | _ => none

theorem toRat?_eq (x : Float) : toRat? x = unpackedRat? x.toModel.unpack := by
  rw [toRat?, parts_eq]
  cases x.toModel.unpack with
  | infinity s => rfl
  | notANumber => rfl
  | zero s => simp [Parts.ofUnpacked, unpackedRat?]
  | finite s m q hm => cases s <;> simp [Parts.ofUnpacked, unpackedRat?, isNegative, signed]

/-! ## Exact results -/

/-- A result that is an integer of at most 53 binary digits is not rounded. -/
theorem unpackedRat?_round {s : Sign} {m : Nat} (hm : 0 < m) {e z : Int}
    (hvalue : signed s (m * 2 ^ e) = z) (hlt : z.natAbs < 2 ^ 53) :
    unpackedRat? (pack (UnpackedFloat.round .binary64 s m e)).unpack = some (z : ℚ) := by
  have hpos : (0 : ℚ) < m * 2 ^ e := mul_pos (by exact_mod_cast hm) (two_zpow_pos e)
  have hsize := natAbs_of_signed hpos.le hvalue
  have hz : 0 < z.natAbs := by
    rw [← hsize] at hpos
    exact_mod_cast hpos
  obtain ⟨m', q, hc, hm', hexact⟩ := exists_canonical hz hlt
  have hround := round_eq s hm e
  rw [← hsize] at hround
  rw [unpack_pack_rounded hc hm' (hexact ▸ reads_self m' q) hround, unpackedRat?, hexact, hsize,
    hvalue]

theorem unpackedRat?_normalize {m e z : Int} (hvalue : (m : ℚ) * 2 ^ e = z)
    (hlt : z.natAbs < 2 ^ 53) (s : Sign) :
    unpackedRat? (pack (UnpackedFloat.normalize .binary64 m e s)).unpack = some (z : ℚ) := by
  unfold UnpackedFloat.normalize
  rcases lt_trichotomy m 0 with hneg | rfl | hpos
  · have hm : (((-m).toNat : Nat) : ℚ) = -(m : ℚ) := by
      exact_mod_cast Int.toNat_of_nonneg (by omega : 0 ≤ -m)
    rw [Int.compare_eq_lt.2 hneg]
    refine unpackedRat?_round (by omega) ?_ hlt
    rw [signed, hm, ← hvalue]
    ring
  · have hz : (0 : ℚ) = z := by rw [← hvalue, Int.cast_zero, zero_mul]
    rw [Int.compare_eq_eq.2 rfl, ← hz]
    exact congrArg unpackedRat? (unpack_pack_zero s)
  · have hm : ((m.toNat : Nat) : ℚ) = m := by
      exact_mod_cast Int.toNat_of_nonneg hpos.le
    rw [Int.compare_eq_gt.2 hpos]
    refine unpackedRat?_round (by omega) ?_ hlt
    rw [signed, hm, hvalue]

/-! ## Calculations -/

/-- An unpacked double as it comes out of a double. -/
def IsCanonical : UnpackedFloat → Prop
  | .finite _ m q _ => Canonical m q
  | _ => True

theorem isCanonical_unpack (x : Float) : IsCanonical x.toModel.unpack := by
  cases hx : x.toModel.unpack with
  | finite s m q hm => exact canonical_unpack hx
  | _ => trivial

theorem IsCanonical.neg {u : UnpackedFloat} (h : IsCanonical u) : IsCanonical u.neg := by
  cases u with
  | finite s m q hm => exact h
  | _ => trivial

theorem IsCanonical.unpack_pack {u : UnpackedFloat} (h : IsCanonical u) : (pack u).unpack = u := by
  cases u with
  | infinity s => cases s <;> rfl
  | notANumber => rfl
  | zero s => exact unpack_pack_zero s
  | finite s m q hm => exact Double.unpack_pack h s hm

theorem unpackedRat?_neg (u : UnpackedFloat) : unpackedRat? u.neg = (unpackedRat? u).map (-·) := by
  cases u with
  | infinity s => rfl
  | notANumber => rfl
  | zero s => simp [UnpackedFloat.neg, unpackedRat?]
  | finite s m q hm => simp [UnpackedFloat.neg, unpackedRat?, signed_neg]

/-- A difference is the sum with the negative. -/
theorem sub_eq_add_neg (u v : UnpackedFloat) :
    UnpackedFloat.sub .binary64 u v = UnpackedFloat.add .binary64 u v.neg := by
  cases u with
  | infinity s => cases v <;> rfl
  | notANumber => cases v <;> rfl
  | zero s => cases v <;> rfl
  | finite s m q hm =>
    cases v with
    | infinity t => rfl
    | notANumber => rfl
    | zero t => rfl
    | finite t n r hn =>
      have happly : ∀ k : Int, (-t).apply k = -t.apply k := by
        intro k
        cases t
        · exact (neg_neg k).symm
        · rfl
      simp [UnpackedFloat.sub, UnpackedFloat.add, UnpackedFloat.neg, happly, Int.sub_eq_add_neg]

/-- A significand brought to a smaller exponent. -/
theorem apply_shiftLeft (s : Sign) (m : Nat) {q e : Int} (h : e ≤ q) :
    (s.apply (m <<< (q - e).toNat : Nat) : ℚ) * 2 ^ e = signed s (m * 2 ^ q) := by
  have hshift : ((m <<< (q - e).toNat : Nat) : ℚ) * 2 ^ e = m * 2 ^ q := by
    rw [Nat.shiftLeft_eq, Nat.cast_mul, Nat.cast_pow, Nat.cast_ofNat, mul_assoc, ← zpow_natCast,
      ← two_zpow_add]
    congr 2
    omega
  rw [← hshift]
  generalize m <<< (q - e).toNat = shifted
  cases s <;> simp [Sign.apply, signed]

theorem unpackedRat?_add {u v : UnpackedFloat} {a b : Int} (hu : IsCanonical u) (hv : IsCanonical v)
    (ha : unpackedRat? u = some (a : ℚ)) (hb : unpackedRat? v = some (b : ℚ))
    (hlt : (a + b).natAbs < 2 ^ 53) :
    unpackedRat? (pack (UnpackedFloat.add .binary64 u v)).unpack = some ((a + b : Int) : ℚ) := by
  cases u with
  | infinity s => cases ha
  | notANumber => cases ha
  | zero s =>
    -- zero is left out, and of two zeros the sign is settled
    have ha0 : (a : ℚ) = 0 := (Option.some.inj ha).symm
    rw [Int.cast_add, ha0, zero_add, ← hb]
    cases v with
    | infinity t => cases hb
    | notANumber => cases hb
    | zero t =>
      have hzero : UnpackedFloat.add .binary64 (.zero s) (.zero t) = .zero s ∨
          UnpackedFloat.add .binary64 (.zero s) (.zero t) = .zero .positive := by
        unfold UnpackedFloat.add
        simp only
        split <;> simp
      rcases hzero with hzero | hzero <;> rw [hzero, unpack_pack_zero] <;> rfl
    | finite t n r hn => exact congrArg unpackedRat? hv.unpack_pack
  | finite s m q hm =>
    cases v with
    | infinity t => cases hb
    | notANumber => cases hb
    | zero t =>
      have hb0 : (b : ℚ) = 0 := (Option.some.inj hb).symm
      rw [Int.cast_add, hb0, add_zero, ← ha]
      exact congrArg unpackedRat? hu.unpack_pack
    | finite t n r hn =>
      refine unpackedRat?_normalize ?_ hlt .positive
      have hleft := apply_shiftLeft s m (min_le_left q r)
      have hright := apply_shiftLeft t n (min_le_right q r)
      rw [Int.cast_add, add_mul, hleft, hright, Option.some.inj ha, Option.some.inj hb, Int.cast_add]

section

variable {x y : Float} {a b : Int} (hx : toRat? x = some (a : ℚ))

include hx

/-- The negative of a double is exact. -/
theorem toRat?_neg : toRat? (-x) = some ((-a : Int) : ℚ) := by
  rw [toRat?_eq] at hx ⊢
  change unpackedRat? (pack x.toModel.unpack.neg).unpack = _
  rw [(isCanonical_unpack x).neg.unpack_pack, unpackedRat?_neg, hx]
  simp

variable (hy : toRat? y = some (b : ℚ))

include hy

/-- **A sum of whole doubles is exact** up to 53 binary digits. -/
theorem toRat?_add (hlt : (a + b).natAbs < 2 ^ 53) : toRat? (x + y) = some ((a + b : Int) : ℚ) := by
  rw [toRat?_eq] at hx hy ⊢
  exact unpackedRat?_add (isCanonical_unpack x) (isCanonical_unpack y) hx hy hlt

/-- **A difference of whole doubles is exact** up to 53 binary digits. -/
theorem toRat?_sub (hlt : (a - b).natAbs < 2 ^ 53) : toRat? (x - y) = some ((a - b : Int) : ℚ) := by
  rw [toRat?_eq] at hx hy ⊢
  change unpackedRat? (pack (UnpackedFloat.sub .binary64 x.toModel.unpack y.toModel.unpack)).unpack = _
  have hneg : unpackedRat? y.toModel.unpack.neg = some ((-b : Int) : ℚ) := by
    rw [unpackedRat?_neg, hy]
    simp
  rw [sub_eq_add_neg, Int.sub_eq_add_neg]
  exact unpackedRat?_add (isCanonical_unpack x) (isCanonical_unpack y).neg hx hneg hlt

/-- **A product of whole doubles is exact** up to 53 binary digits. -/
theorem toRat?_mul (hlt : (a * b).natAbs < 2 ^ 53) : toRat? (x * y) = some ((a * b : Int) : ℚ) := by
  rw [toRat?_eq] at hx hy ⊢
  have hmul : (x * y).toModel.unpack =
      (pack (UnpackedFloat.mul .binary64 x.toModel.unpack y.toModel.unpack)).unpack := rfl
  rw [Int.cast_mul]
  cases hux : x.toModel.unpack with
  | infinity s => rw [hux] at hx; cases hx
  | notANumber => rw [hux] at hx; cases hx
  | zero s =>
    rw [hux] at hx
    have ha0 : (a : ℚ) = 0 := (Option.some.inj hx).symm
    rw [ha0, zero_mul]
    cases huy : y.toModel.unpack with
    | infinity t => rw [huy] at hy; cases hy
    | notANumber => rw [huy] at hy; cases hy
    | _ =>
      rw [hmul, hux, huy]
      exact congrArg unpackedRat? (unpack_pack_zero _)
  | finite s m q hm =>
    rw [hux] at hx
    have ha : (a : ℚ) = signed s (m * 2 ^ q) := (Option.some.inj hx).symm
    cases huy : y.toModel.unpack with
    | infinity t => rw [huy] at hy; cases hy
    | notANumber => rw [huy] at hy; cases hy
    | zero t =>
      rw [huy] at hy
      have hb0 : (b : ℚ) = 0 := (Option.some.inj hy).symm
      rw [hb0, mul_zero, hmul, hux, huy]
      exact congrArg unpackedRat? (unpack_pack_zero _)
    | finite t n r hn =>
      rw [huy] at hy
      have hb : (b : ℚ) = signed t (n * 2 ^ r) := (Option.some.inj hy).symm
      have hpos : (0 : ℚ) < m * 2 ^ q * (n * 2 ^ r) := by
        have := two_zpow_pos q
        have := two_zpow_pos r
        positivity
      have hvalue : signed (s * t) (m * 2 ^ q * (n * 2 ^ r)) = ((a * b : Int) : ℚ) := by
        rw [signed_mul, ← ha, ← hb, Int.cast_mul]
      have hsize := natAbs_of_signed hpos.le hvalue
      have hz : 0 < (a * b).natAbs := by
        rw [← hsize] at hpos
        exact_mod_cast hpos
      obtain ⟨k, e, hc, hk, hexact⟩ := exists_canonical hz hlt
      have hreads : Reads k e (m * 2 ^ q * (n * 2 ^ r)) := by
        rw [← hsize, ← hexact]
        exact reads_self k e
      rw [(isRounded_mul hux huy).unpack_eq hc hk hreads, unpackedRat?, hexact, hsize, hvalue, Int.cast_mul]

end

/-! ## Integers -/

/-- A double is an integer if that is its value. -/
theorem toInt?_of_toRat? {x : Float} {i : Int} (h : toRat? x = some (i : ℚ)) : toInt? x = some i := by
  have hsome : ∃ n, toInt? x = some n := by
    unfold toRat? at h
    unfold toInt?
    cases hparts : parts x with
    | nan => simp [hparts] at h
    | infinity negative => simp [hparts] at h
    | finite negative m q =>
      simp only [hparts, Option.some_inj] at h ⊢
      have hdvd : m % pow2 (-q).toNat = 0 := by
        rcases le_or_gt 0 q with hq | hq
        · rw [Int.toNat_of_nonpos (by omega)]
          exact Nat.mod_one m
        · obtain ⟨k, rfl⟩ : ∃ k : Nat, q = -(k : Int) := ⟨(-q).toNat, by omega⟩
          have hpow : ((pow2 k : Nat) : ℚ) = 2 ^ k := by
            change ((2 ^ k : Nat) : ℚ) = 2 ^ k
            push_cast
            rfl
          have hm : (m : ℚ) = i.natAbs * pow2 k := by
            have habs : (m : ℚ) * 2 ^ (-(k : Int)) = i.natAbs := by
              have hpos : (0 : ℚ) ≤ m * 2 ^ (-(k : Int)) :=
                mul_nonneg (Nat.cast_nonneg m) (two_zpow_pos _).le
              rw [Nat.cast_natAbs, Int.cast_abs, ← h, mul_assoc, abs_mul, abs_of_nonneg hpos]
              cases negative <;> simp
            rw [← habs, hpow, zpow_neg, zpow_natCast]
            field_simp
          have hnat : m = i.natAbs * pow2 k := by exact_mod_cast hm
          rw [neg_neg, Int.toNat_natCast, hnat]
          exact Nat.mul_mod_left _ _
      rw [if_pos hdvd]
      exact ⟨_, rfl⟩
  obtain ⟨n, hn⟩ := hsome
  have hvalue := toRat?_of_toInt? hn
  rw [h, Option.some_inj, Int.cast_inj] at hvalue
  rw [hn, hvalue]

/-- A decimal that is a whole number of at most 53 binary digits is read as that number. -/
theorem toRat?_ofDecimal {d : Decimal} {n : Nat} (hd : d.toRat = n) (hlt : n < 2 ^ 53) :
    toRat? (ofDecimal d) = some (n : ℚ) := by
  rcases Nat.eq_zero_or_pos n with rfl | hn
  · have hzero : d.isZero = true := (Decimal.isZero_iff d).2 (by rw [hd, Nat.cast_zero])
    have hparts : ∀ negative, parts (if negative then -(0 : Float) else 0) =
        .finite negative 0 minExponent := by
      decide +kernel
    have hdecimal : ofDecimal d = if d.negative then -(0 : Float) else 0 := by
      unfold ofDecimal
      simp only [hzero, if_true]
    rw [toRat?, hdecimal, hparts]
    simp
  · obtain ⟨m, q, hc, hm, hexact⟩ := exists_canonical hn hlt
    have hpos : (0 : ℚ) < d.toRat := by
      rw [hd]
      exact_mod_cast hn
    have hsign : d.negative = false := by
      rw [Bool.eq_false_iff]
      intro hneg
      have hsigned : d.toRat ≤ 0 := by
        rw [Decimal.toRat, Decimal.signed, if_pos hneg]
        have := Decimal.ten_zpow_pos d.exponent
        have := Nat.cast_nonneg (α := ℚ) d.coefficient
        push_cast
        nlinarith
      exact absurd hpos (not_lt.2 hsigned)
    have hreads : Reads m q |d.toRat| := by
      rw [abs_of_pos hpos, hd, ← hexact]
      exact reads_self m q
    rw [toRat?, parts_ofDecimal hc hm hreads, hsign, ← hexact]
    simp

/-! ## Rounding -/

end Longhand.Double

namespace Longhand

/-- A whole number stays itself at any place after the point. -/
theorem Decimal.toRat_atExponent_of_whole {d : Decimal} {i : Int} (h : d.toRat = i) {e : Int}
    (he : e ≤ 0) : (d.atExponent e).toRat = i := by
  obtain ⟨negative, n, k⟩ := d
  obtain ⟨places, rfl⟩ : ∃ places : Nat, e = -(places : Int) := ⟨(-e).toNat, by omega⟩
  have hsize : (⟨false, n, k⟩ : Decimal).toRat = i.natAbs := by
    rw [toRat_mk, Nat.cast_natAbs, Int.cast_abs, ← h, abs_toRat]
  have hunit : ((i.natAbs : Nat) : ℚ) / 10 ^ (-(places : Int)) = (i.natAbs * 10 ^ places : Nat) := by
    rw [zpow_neg, zpow_natCast, div_inv_eq_mul]
    push_cast
    rfl
  have hplace := atExponent_eq (x := ⟨false, n, k⟩) rfl (-places)
  rw [hsize, hunit, halfUp_natCast] at hplace
  -- the sign does not take part in the rounding
  have hsigned : (⟨negative, n, k⟩ : Decimal).atExponent (-places) =
      ⟨negative, i.natAbs * 10 ^ places, -places⟩ := by
    unfold atExponent at hplace ⊢
    simp only at hplace ⊢
    split <;> simp_all
  have hback : ((i.natAbs * 10 ^ places : Nat) : ℚ) * 10 ^ (-(places : Int)) = i.natAbs := by
    rw [zpow_neg, zpow_natCast]
    push_cast
    field_simp
  rw [toRat_mk] at hsize
  rw [hsigned, toRat_signed_mk, mul_assoc, hback, ← hsize, ← mul_assoc, ← toRat_signed_mk, h]

namespace Double

variable {x : Float} {i : Int} (h : toRat? x = some (i : ℚ)) (hlt : i.natAbs < 2 ^ 53)

include h hlt

/-- A whole double is written as itself, in a decimal of moderate size. -/
theorem exists_exact_of_toRat? : ∃ c, exact x = .finite c ∧ c.Moderate ∧ c.toRat = i := by
  cases hparts : parts x with
  | nan => simp [toRat?, hparts] at h
  | infinity negative => simp [toRat?, hparts] at h
  | finite negative m q =>
    have hexact := exact_of_parts hparts
    have hc := canonical_parts hparts
    have hmoderate := moderate_ofParts negative hc.lt hc.least hc.le
    exact ⟨_, hexact, hmoderate, toRat_exact_of_toInt? hexact (toInt?_of_toRat? h) hlt⟩

/-- **A whole double is rounded to itself.** -/
theorem eq_of_roundHalfUp_eq_ok {places : Int} (hp : 0 ≤ places) {r : Number}
    (hr : (exact x).roundHalfUp places = .ok r) : r = .int i := by
  obtain ⟨c, hexact, hmoderate, hvalue⟩ := exists_exact_of_toRat? h hlt
  have hplaces : -places ≤ maxAdjusted := by
    simp only [maxAdjusted]
    omega
  have hrounded := Decimal.toRat_atExponent_of_whole hvalue (by omega : -places ≤ 0)
  rw [hexact, hmoderate.roundHalfUp_eq hplaces, Number.ofDecimal_of_whole hrounded] at hr
  split at hr
  · cases hr
  · exact (Except.ok.inj hr).symm

end Double

end Longhand
