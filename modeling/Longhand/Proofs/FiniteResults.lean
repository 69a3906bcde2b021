import Longhand.Proofs.ExactCalculation
import Longhand.Proofs.RoundedDoubles
import Longhand.Proofs.StatedAnswers
import Longhand.Proofs.WrittenNumbers
/-!
# Results that are finite numbers

A result that is whole is an integer, of any size. Any other is the nearest double, which is finite
up to `Double.overflow`. The operands of a problem are below that (`Double.abs_exact_lt`), and so is
a sum, a difference, a product, a percentage or a negative of doubles that is not whole. A quotient
need not be: a great number divided by a small fraction may be greater than every double and still
have digits after its point when it is rounded to two places.

Main result, `Problem.result_isFinite_iff`.
-/

namespace Longhand

namespace Double

open Float.Model Float.Model.UnpackedFloat

/-! ## The greatest double -/

/-- The bound is half a unit above the greatest double. -/
theorem overflow_eq_half : overflow = (2 ^ 53 - 1 / 2 : ℚ) * 2 ^ maxExponent := by
  rw [sub_mul, overflow, ← zpow_natCast, ← two_zpow_add, one_div, ← zpow_neg_one, ← two_zpow_add]
  rfl

/-- What is read as a double is below the numbers that are too large. -/
theorem Reads.lt_overflow {m : Nat} {q : Int} {v : ℚ} (hc : Canonical m q) (hr : Reads m q v) :
    v < overflow := by
  have hhalf : v / 2 ^ q < 2 ^ 53 - 1 / 2 := by
    have hm : (m : ℚ) + 1 ≤ 2 ^ 53 := by exact_mod_cast hc.lt
    refine lt_of_le_of_ne (by linarith [hr.high]) fun heq => ?_
    -- only an even significand is reached from half a unit above, and the greatest is odd
    have htop : (m : ℚ) + 1 = 2 ^ 53 := by linarith [hr.high]
    have hodd : m + 1 = 2 ^ 53 := by exact_mod_cast htop
    have heven := hr.even (.inr (by linarith))
    omega
  have hpow : (2 : ℚ) ^ q ≤ 2 ^ maxExponent := zpow_le_zpow_right₀ (by norm_num) hc.le
  calc v = v / 2 ^ q * 2 ^ q := (div_mul_cancel₀ _ (two_zpow_pos q).ne').symm
    _ < (2 ^ 53 - 1 / 2) * 2 ^ q := mul_lt_mul_of_pos_right hhalf (two_zpow_pos q)
    _ ≤ (2 ^ 53 - 1 / 2) * 2 ^ maxExponent := mul_le_mul_of_nonneg_left hpow (by norm_num)
    _ = overflow := overflow_eq_half.symm

theorem overflow_pos : 0 < overflow :=
  (two_zpow_pos 0).trans_le (two_zpow_le_overflow (by norm_num))

/-- **What a finite double is written as is below the numbers that are too large.** -/
theorem abs_exact_lt {x : Float} {d : Decimal} (h : exact x = .finite d) :
    |d.toRat| < overflow := by
  obtain ⟨negative, m, q, -, hc, rfl⟩ := exists_parts_of_exact h
  rcases Nat.eq_zero_or_pos m with rfl | hm
  · have hzero : (ofParts negative 0 q).toRat = 0 := by
      simp [ofParts, Decimal.toRat, Decimal.signed]
    rw [hzero, abs_zero]
    exact overflow_pos
  · have hreads := shortest_reads q hm hc.lt
    have hsize : |(ofParts negative m q).toRat| = shortestValue m q := by
      rw [toRat_ofParts negative q hm]
      cases negative
      · exact abs_of_pos (hreads.pos hm)
      · exact (abs_neg _).trans (abs_of_pos (hreads.pos hm))
    rw [hsize]
    exact hreads.lt_overflow hc

theorem isFinite_of_parts {x : Float} {negative : Bool} {m : Nat} {q : Int}
    (h : parts x = .finite negative m q) : x.isFinite = true := by
  have hfield : pow2 11 - 1 = 2047 := rfl
  rw [isFinite_iff, exponentField_eq]
  change x.toBits.toNat / pow2 52 % pow2 11 ≠ 2047
  intro hgreatest
  unfold parts at h
  simp only [hgreatest, hfield, if_true] at h
  split at h <;> cases h

theorem isFinite_of_exact {x : Float} {d : Decimal} (h : exact x = .finite d) :
    x.isFinite = true := by
  obtain ⟨negative, m, q, hparts, -, -⟩ := exists_parts_of_exact h
  exact isFinite_of_parts hparts

/-! ## Numbers that are too large -/

/-- A number that is too large is rounded to more than a double has an exponent for. -/
theorem Rounds.exists_carried_of_overflow {v : ℚ} {n : Nat} {t : Int} (h : Rounds v n t)
    (hv : overflow ≤ v) : ∃ m e, ∃ hm : 0 < m, maxExponent < e ∧
      carried .positive n t = .finite .positive m e hm := by
  have hunit : maxExponent ≤ t := by
    have hlt : (2 : ℚ) ^ (1023 : Int) < 2 ^ (53 + t) :=
      (two_zpow_le_overflow le_rfl).trans_lt (hv.trans_lt h.unit.lt)
    have hexp := (zpow_lt_zpow_iff_right₀ (by norm_num : (1 : ℚ) < 2)).1 hlt
    simp only [maxExponent]
    omega
  have hleading : 2 ^ 52 ≤ n := h.leading.resolve_right fun hleast => by
    rw [hleast] at hunit
    exact absurd hunit (by decide)
  have hne : n ≠ 0 := by
    rintro rfl
    norm_num at hleading
  rw [carried, dif_neg hne]
  by_cases hlt : n < 2 ^ 53
  · refine ⟨n, t, Nat.pos_of_ne_zero hne, lt_of_le_of_ne hunit fun heq => ?_, if_pos hlt⟩
    -- in units of the greatest exponent the number is half a unit above the greatest significand
    subst heq
    have hhalf : (2 ^ 53 - 1 / 2 : ℚ) ≤ v / 2 ^ maxExponent := by
      rw [le_div_iff₀ (two_zpow_pos _), ← overflow_eq_half]
      exact hv
    have hcast : (n : ℚ) + 1 ≤ 2 ^ 53 := by exact_mod_cast hlt
    have htop : (n : ℚ) + 1 = 2 ^ 53 := by linarith [h.nearest.high]
    have hodd : n + 1 = 2 ^ 53 := by exact_mod_cast htop
    have heven := h.nearest.even (.inr (by linarith [h.nearest.high]))
    omega
  · exact ⟨2 ^ 52, t + 1, by norm_num, by omega, if_neg hlt⟩

theorem IsRounded.not_isFinite {x : Float} {v : ℚ} (h : IsRounded x .positive v)
    (hv : overflow ≤ v) : ¬x.isFinite = true := by
  obtain ⟨n, t, hrounds, hx⟩ := h
  obtain ⟨m, e, hm, he, heq⟩ := hrounds.exists_carried_of_overflow hv
  change ¬x.toModel.unpack.isFinite = true
  rw [hx, heq, unpack_pack_of_lt .positive hm he]
  exact Bool.false_ne_true

end Double

/-! ## Decimals that are not whole -/

/-- Only a negative power of ten leaves digits after the point. -/
theorem exponent_neg_of_not_whole {n e : Int} (h : ∀ i : Int, (n : ℚ) * 10 ^ e ≠ i) : e < 0 := by
  by_contra hnonneg
  refine h (n * 10 ^ e.toNat) ?_
  push_cast
  rw [← zpow_natCast, Int.toNat_of_nonneg (not_lt.1 hnonneg)]

/-- A number with digits after its point is smaller than its digits. -/
theorem abs_lt_of_not_whole {n e : Int} (h : ∀ i : Int, (n : ℚ) * 10 ^ e ≠ i) :
    |(n : ℚ) * 10 ^ e| ≤ |(n : ℚ)| := by
  have hpow : (10 : ℚ) ^ e ≤ 1 :=
    zpow_le_one_of_nonpos₀ (by norm_num) (exponent_neg_of_not_whole h).le
  rw [abs_mul, abs_of_pos (Decimal.ten_zpow_pos e)]
  exact mul_le_of_le_one_right (abs_nonneg _) hpow

namespace Decimal

open Double (pow2)

variable {d : Decimal}

theorem toRat_eq (d : Decimal) : d.toRat = d.signed * 10 ^ d.exponent := rfl

/-- **The double nearest to a decimal that is not whole is finite** below the numbers that are too
large. -/
theorem isFinite_ofDecimal (hpart : ∀ i : Int, d.toRat ≠ i) (hlt : |d.toRat| < Double.overflow) :
    (Double.ofDecimal d).isFinite = true := by
  have hexponent : d.exponent < 0 := exponent_neg_of_not_whole hpart
  by_cases hsmall : d.coefficient < 2 ^ 64 * 10 ^ (-d.exponent).toNat
  · exact Double.isFinite_ofDecimal hexponent hsmall
  · have hpow : ((10 ^ (-d.exponent).toNat : Nat) : ℚ) * 10 ^ d.exponent = 1 := by
      rw [Nat.cast_pow, Nat.cast_ofNat, ← zpow_natCast, ← ten_zpow_add]
      have hplaces : ((-d.exponent).toNat : Int) + d.exponent = 0 := by omega
      rw [hplaces, zpow_zero]
    have hlarge : (2 : ℚ) ^ (64 : Int) ≤ |d.toRat| := by
      have hcast : ((2 ^ 64 * 10 ^ (-d.exponent).toNat : Nat) : ℚ) ≤ d.coefficient :=
        Nat.cast_le.2 (not_lt.1 hsmall)
      calc (2 : ℚ) ^ (64 : Int)
          = (2 ^ 64 * 10 ^ (-d.exponent).toNat : Nat) * 10 ^ d.exponent := by
            rw [Nat.cast_mul, mul_assoc, hpow, mul_one]
            norm_num
        _ ≤ d.coefficient * 10 ^ d.exponent := mul_le_mul_of_nonneg_right hcast (ten_zpow_pos _).le
        _ = |d.toRat| := (abs_toRat d).symm
    have hlow : (2 : ℚ) ^ (-1022 : Int) ≤ |d.toRat| :=
      (zpow_le_zpow_right₀ (by norm_num) (by norm_num)).trans hlarge
    obtain ⟨m, q, hc, hleading, hreads⟩ := Double.exists_reads hlow hlt
    exact Double.isFinite_of_parts
      (Double.parts_ofDecimal hc (lt_of_lt_of_le (by norm_num) hleading) hreads)

/-- **The double nearest to a decimal that is too large is an infinity.** -/
theorem not_isFinite_ofDecimal (hsign : d.negative = false) (hlarge : Double.overflow ≤ |d.toRat|) :
    ¬(Double.ofDecimal d).isFinite = true := by
  obtain ⟨x, hsize, hx⟩ := Double.exists_isSize d
  rw [hx, hsign, if_neg Bool.false_ne_true]
  cases hsize with
  | small h =>
    have hlt : (10 : ℚ) ^ (-400 : Int) < 2 ^ (0 : Int) := by
      rw [zpow_zero]
      exact zpow_lt_one_of_neg₀ (by norm_num) (by norm_num)
    exact absurd (hlarge.trans h) (not_le.2 (hlt.trans_le (Double.two_zpow_le_overflow (by norm_num))))
  | large _ => decide +kernel
  | rounded h => exact h.not_isFinite hlarge

/-- The bound as a whole number. -/
theorem overflow_eq : Double.overflow = (pow2 1024 - pow2 970 : Nat) := by
  have hle {a b : Nat} (h : a ≤ b) : pow2 a ≤ pow2 b := Nat.pow_le_pow_right (by norm_num) h
  have hcast (n : Nat) : ((pow2 n : Nat) : ℚ) = 2 ^ (n : Int) := by
    have hpow : pow2 n = 2 ^ n := rfl
    rw [hpow, Nat.cast_pow, Nat.cast_ofNat, zpow_natCast]
  rw [Nat.cast_sub (hle (by norm_num)), hcast, hcast, Double.overflow]
  rfl

/-- Between a decimal of few digits and the numbers that are too large there is room, if the decimal
is not too large itself. -/
theorem Moderate.add_lt_overflow (hd : d.Moderate) (hlt : |d.toRat| < Double.overflow) :
    |d.toRat| + pow10 17 < Double.overflow := by
  rw [overflow_eq, abs_toRat] at *
  have hc : d.coefficient ≤ pow10 17 := hd.coefficient_le
  rcases le_or_gt d.exponent 291 with hsmall | hlarge
  · have hroom : pow10 308 + pow10 17 < pow2 1024 - pow2 970 := by decide +kernel
    have hproduct : (d.coefficient : ℚ) * 10 ^ d.exponent ≤ (pow10 308 : Nat) := by
      have hcast : (d.coefficient : ℚ) ≤ 10 ^ (17 : Int) := by
        rw [zpow_ofNat, ← pow10_eq]
        exact_mod_cast hc
      calc (d.coefficient : ℚ) * 10 ^ d.exponent ≤ 10 ^ (17 : Int) * 10 ^ (291 : Int) :=
            mul_le_mul hcast (zpow_le_zpow_right₀ (by norm_num) hsmall) (ten_zpow_pos _).le
              (ten_zpow_pos _).le
        _ = (pow10 308 : Nat) := by
          rw [← ten_zpow_add, pow10_eq, ← zpow_natCast]
          rfl
    calc (d.coefficient : ℚ) * 10 ^ d.exponent + pow10 17 ≤ (pow10 308 + pow10 17 : Nat) := by
          rw [Nat.cast_add]
          exact add_le_add_left hproduct _
      _ < (pow2 1024 - pow2 970 : Nat) := Nat.cast_lt.2 hroom
  · -- so far up the decimal is a multiple of a great power of ten, and the bound is none
    have hvalue : (d.coefficient : ℚ) * 10 ^ d.exponent =
        (d.coefficient * pow10 (d.exponent - 292).toNat * pow10 292 : Nat) := by
      have hexponent : d.exponent = ((d.exponent - 292).toNat : Int) + (292 : Nat) := by omega
      rw [Nat.cast_mul, Nat.cast_mul, pow10_eq, pow10_eq, mul_assoc, ← zpow_natCast,
        ← zpow_natCast, ← ten_zpow_add, ← hexponent]
    rw [hvalue] at hlt ⊢
    generalize d.coefficient * pow10 (d.exponent - 292).toNat = n at *
    have hunits : n ≤ (pow2 1024 - pow2 970) / pow10 292 :=
      (Nat.le_div_iff_mul_le (pow10_pos _)).2 (Nat.cast_lt.1 hlt).le
    have hroom : (pow2 1024 - pow2 970) / pow10 292 * pow10 292 + pow10 17 <
        pow2 1024 - pow2 970 := by
      decide +kernel
    rw [← Nat.cast_add, Nat.cast_lt]
    exact (Nat.add_le_add_right (Nat.mul_le_mul_right _ hunits) _).trans_lt hroom

end Decimal

/-! ## Problems with doubles -/

def Term.IsDouble (t : Term) : Prop :=
  ∃ x, t.number = .float x

section

variable {t : Term} (ht : t.IsDouble)

include ht

theorem Term.IsDouble.moderate : t.exact.Moderate := by
  obtain ⟨x, hx⟩ := ht
  have hexact : Double.exact x = .finite t.exact := by
    have heq := t.exact_eq
    rwa [hx] at heq
  obtain ⟨d, hd, hmoderate⟩ := Double.moderate_exact (Double.isFinite_of_exact hexact)
  obtain rfl : d = t.exact := DecimalValue.finite.inj (hd.symm.trans hexact)
  exact hmoderate

theorem Term.IsDouble.abs_lt : |t.exact.toRat| < Double.overflow := by
  obtain ⟨x, hx⟩ := ht
  have heq := t.exact_eq
  rw [hx] at heq
  exact Double.abs_exact_lt heq

theorem Term.IsDouble.abs_signed_le : |(t.exact.signed : ℚ)| ≤ pow10 17 := by
  rw [Decimal.signed_natAbs]
  exact_mod_cast ht.moderate.coefficient_le

/-- A double with digits after its point leaves room below the numbers that are too large. -/
theorem Term.IsDouble.abs_le_of_not_whole (h : ∀ i : Int, t.exact.toRat ≠ i) :
    |t.exact.toRat| ≤ pow10 17 :=
  (abs_lt_of_not_whole h).trans ht.abs_signed_le

end

namespace Problem

def OfDoubles : Problem → Prop
  | .negation value => value.IsDouble
  | .binary _ left right => left.IsDouble ∧ right.IsDouble

theorem pow10_le_overflow {n : Nat} (h : n ≤ 308) : (pow10 n : ℚ) ≤ Double.overflow := by
  have hroom : pow10 308 ≤ Double.pow2 1024 - Double.pow2 970 := by decide +kernel
  have hmono {a b : Nat} (hab : a ≤ b) : pow10 a ≤ pow10 b :=
    Nat.pow_le_pow_right (by norm_num) hab
  have hle := hmono h
  rw [Decimal.overflow_eq]
  exact_mod_cast hle.trans hroom

section

variable {l r : Term} (hl : l.IsDouble) (hr : r.IsDouble)

include hl hr

theorem abs_sum_lt (hpart : ∀ i : Int, l.exact.toRat + r.exact.toRat ≠ i) :
    |l.exact.toRat + r.exact.toRat| < Double.overflow := by
  have hsum := abs_add_le l.exact.toRat r.exact.toRat
  by_cases hwhole : ∃ i : Int, l.exact.toRat = i
  · obtain ⟨i, hi⟩ := hwhole
    have hright : ∀ j : Int, r.exact.toRat ≠ j := by
      intro j hj
      exact hpart (i + j) (by rw [hi, hj, Int.cast_add])
    have hroom := hl.moderate.add_lt_overflow hl.abs_lt
    have hsmall := hr.abs_le_of_not_whole hright
    linarith
  · have hleft : ∀ i : Int, l.exact.toRat ≠ i := not_exists.1 hwhole
    have hroom := hr.moderate.add_lt_overflow hr.abs_lt
    have hsmall := hl.abs_le_of_not_whole hleft
    linarith

theorem abs_product_lt {e : Int}
    (hpart : ∀ i : Int, l.exact.toRat * r.exact.toRat * 10 ^ e ≠ i) :
    |l.exact.toRat * r.exact.toRat * 10 ^ e| < Double.overflow := by
  have hvalue : l.exact.toRat * r.exact.toRat * 10 ^ e =
      ((l.exact.signed * r.exact.signed : Int) : ℚ) *
        10 ^ (l.exact.exponent + r.exact.exponent + e) := by
    rw [Decimal.toRat_eq, Decimal.toRat_eq, Decimal.ten_zpow_add, Decimal.ten_zpow_add]
    push_cast
    ring
  rw [hvalue] at hpart ⊢
  calc _ ≤ |((l.exact.signed * r.exact.signed : Int) : ℚ)| := abs_lt_of_not_whole hpart
    _ = |(l.exact.signed : ℚ)| * |(r.exact.signed : ℚ)| := by rw [Int.cast_mul, abs_mul]
    _ ≤ pow10 17 * pow10 17 :=
      mul_le_mul hl.abs_signed_le hr.abs_signed_le (abs_nonneg _) (Nat.cast_nonneg _)
    _ = (pow10 34 : Nat) := by rw [← Nat.cast_mul, ← pow10_add]
    _ < (pow10 35 : Nat) := Nat.cast_lt.2 (by decide +kernel)
    _ ≤ Double.overflow := pow10_le_overflow (by norm_num)

end

/-- Only quotients are too large for a double and not whole either. -/
theorem abs_exactResult_lt {p : Problem} (hp : p.OfDoubles) (hcheck : p.check = .ok ())
    (hop : p.operation ≠ .binary .division) (hpart : ∀ i : Int, p.exactResult ≠ i) :
    |p.exactResult| < Double.overflow := by
  cases p with
  | negation value =>
    rw [exactResult, abs_neg]
    exact hp.abs_lt
  | binary op l r =>
    obtain ⟨hl, hr⟩ := hp
    cases op with
    | addition => exact abs_sum_lt hl hr hpart
    | subtraction =>
      obtain ⟨hlpos, hrpos⟩ := nonneg_of_check (by decide) hcheck
      have hltop := hl.abs_lt
      have hrtop := hr.abs_lt
      rw [abs_of_nonneg hlpos] at hltop
      rw [abs_of_nonneg hrpos] at hrtop
      rw [exactResult, abs_lt]
      constructor <;> linarith
    | multiplication =>
      have hproduct := @abs_product_lt l r hl hr 0
      simp only [zpow_zero, mul_one] at hproduct
      exact hproduct hpart
    | division => exact absurd rfl hop
    | percentage =>
      have hproduct := @abs_product_lt l r hl hr (-2)
      have hhundredth : (10 : ℚ) ^ (-2 : Int) = 1 / 100 := by norm_num
      simp only [hhundredth, mul_one_div] at hproduct
      exact hproduct hpart

/-- A quotient that is too large for a double and has digits after its point when it is rounded. -/
structure Overflows (p : Problem) : Prop where
  division : p.operation = .binary .division
  part : ∀ i : Int, p.exactResult ≠ i
  large : Double.overflow ≤ p.exactResult

end Problem

theorem Double.isFinite_of_toInt? {x : Float} {i : Int} (h : toInt? x = some i) :
    x.isFinite = true := by
  unfold toInt? at h
  split at h
  · rename_i hparts
    exact isFinite_of_parts hparts
  · cases h

theorem Number.isFinite_simplest_iff (n : Number) : n.simplest.IsFinite ↔ n.IsFinite := by
  cases n with
  | int i => rfl
  | float x =>
    cases hx : Double.toInt? x with
    | none => simp only [simplest, hx]
    | some i =>
      simp only [simplest, hx]
      exact iff_of_true trivial (Double.isFinite_of_toInt? hx)

/-- The number nearest to a decimal that is not too large is finite. -/
theorem Number.isFinite_ofDecimal {d : Decimal} (hlt : |d.toRat| < Double.overflow) :
    (ofDecimal d).IsFinite := by
  by_cases hwhole : ∃ i : Int, d.toRat = i
  · obtain ⟨i, hi⟩ := hwhole
    rw [ofDecimal_of_whole hi]
    exact trivial
  · rw [ofDecimal_of_not_whole (not_exists.1 hwhole)]
    exact Decimal.isFinite_ofDecimal (not_exists.1 hwhole) hlt

namespace Problem

/-- A quotient is not negative and has two places after its point. -/
theorem exists_resultDecimal_eq {p : Problem} (hcheck : p.check = .ok ())
    (hop : p.operation = .binary .division) : ∃ n, p.resultDecimal = ⟨false, n, -2⟩ := by
  cases p with
  | negation value => cases hop
  | binary op left right =>
    obtain rfl : op = .division := Operation.binary.inj hop
    obtain ⟨hl, hr⟩ := divisor_pos_of_check hcheck
    exact ⟨_, Decimal.divideHalfUp_eq hl hr Division.places⟩

/-! ## Main result -/

/-- **The result of a problem is an integer or a finite double**, unless it is a quotient that is
rounded to a number with digits after its point and too large for a double. -/
theorem result_isFinite_iff {p : Problem} (hp : p.OfDoubles) (hcheck : p.check = .ok ()) :
    p.result.IsFinite ↔ ¬p.Overflows := by
  have hresult : p.result.IsFinite ↔ (Number.ofDecimal p.resultDecimal).IsFinite := by
    rcases p.result_eq_or with heq | heq
    · rw [heq]
    · rw [heq, Number.isFinite_simplest_iff]
  have hexact := toRat_resultDecimal hcheck
  by_cases hwhole : ∃ i : Int, p.exactResult = i
  · obtain ⟨i, hi⟩ := hwhole
    rw [hresult, Number.ofDecimal_of_whole (hexact.trans hi)]
    exact iff_of_true trivial fun h => h.part i hi
  · have hpart : ∀ i : Int, p.resultDecimal.toRat ≠ i := hexact ▸ not_exists.1 hwhole
    rw [hresult]
    constructor
    · rintro hfinite ⟨hop, -, hlarge⟩
      rw [Number.ofDecimal_of_not_whole hpart] at hfinite
      obtain ⟨n, hn⟩ := exists_resultDecimal_eq hcheck hop
      rw [← hexact] at hlarge
      rw [hn] at hlarge hfinite
      exact Decimal.not_isFinite_ofDecimal rfl (hlarge.trans (le_abs_self _)) hfinite
    · intro hfits
      refine Number.isFinite_ofDecimal ?_
      by_cases hop : p.operation = .binary .division
      · obtain ⟨n, hn⟩ := exists_resultDecimal_eq hcheck hop
        have hnonneg : 0 ≤ p.resultDecimal.toRat := by
          rw [hn, Decimal.toRat_mk]
          exact mul_nonneg (Nat.cast_nonneg n) (Decimal.ten_zpow_pos _).le
        rw [abs_of_nonneg hnonneg, hexact]
        by_contra hlarge
        exact hfits ⟨hop, not_exists.1 hwhole, not_lt.1 hlarge⟩
      · rw [hexact]
        exact abs_exactResult_lt hp hcheck hop (not_exists.1 hwhole)

end Problem

end Longhand
