import Longhand.Proofs.NearestDoubles
import Longhand.Proofs.QuotientRounding
/-!
# What numbers are written as

A number is written as the number that its exact decimal denotes (`Number.IsWritten`). A decimal
turned into a number is written as itself whenever any number is (`isWritten_ofDecimal`), as
all whole decimals are and all that have at most fifteen digits (`exists_isWritten_of_digits`). A
whole double is written as a whole number, and as its own value below `2 ^ 53`.
-/

namespace Longhand

open Double (Canonical Reads parts shortestValue)

/-- Read as a decimal, the number denotes `v`. -/
def Number.IsWritten (n : Number) (v : ℚ) : Prop :=
  ∃ c : Decimal, n.exact = .finite c ∧ c.toRat = v

theorem Number.IsWritten.unique {n : Number} {v w : ℚ} (hv : n.IsWritten v) (hw : n.IsWritten w) :
    v = w := by
  obtain ⟨c, hc, rfl⟩ := hv
  obtain ⟨d, hd, rfl⟩ := hw
  cases hc.symm.trans hd
  rfl

theorem Decimal.toRat_ofInt (i : Int) : (ofInt i).toRat = i := by
  rw [ofInt, toRat_ofScaled, zpow_zero, mul_one]

theorem Number.isWritten_int_iff (i : Int) (v : ℚ) : (Number.int i).IsWritten v ↔ (i : ℚ) = v := by
  constructor
  · rintro ⟨c, hc, rfl⟩
    cases hc
    exact (Decimal.toRat_ofInt i).symm
  · rintro rfl
    exact ⟨_, rfl, Decimal.toRat_ofInt i⟩

/-- Plain notation, with or without a minus, is read back as the number. -/
theorem Decimal.toRat_read?_plain (d : Decimal) : (read? d.plain).map toRat = some d.toRat := by
  by_cases hneg : d.isNegative = true
  · have hsize : d.numeral.toDecimal.toRat = -d.toRat := by
      rw [← Numeral.toRat, toRat_numeral, abs_of_neg ((isNegative_iff d).1 hneg)]
    have hplain : d.plain = '-' :: d.numeral.text := by simp [plain, hneg]
    have hvalue := toRat_neg d.numeral.toDecimal
    rw [hsize, neg_neg] at hvalue
    rw [hplain, Numeral.read?_minus_text d.numeral_integer_ne_nil]
    exact congrArg some hvalue
  · have hpos : 0 ≤ d.toRat := not_lt.1 ((isNegative_iff d).not.1 hneg)
    rw [read?_plain hpos]
    exact congrArg some (toRat_numeral_of_nonneg hpos)

/-! ## Whole decimals and whole doubles -/

/-- A decimal is whole if it denotes an integer. -/
theorem Decimal.toInt?_eq_some_iff (d : Decimal) (i : Int) : d.toInt? = some i ↔ d.toRat = i := by
  unfold toInt?
  split
  · rename_i hexponent
    have hvalue := scaledTo_mul hexponent
    rw [zpow_zero, mul_one] at hvalue
    rw [Option.some_inj, ← hvalue, Int.cast_inj]
  · rename_i hexponent
    let unit := pow10 (-d.exponent).toNat
    have hunit : (0 : ℚ) < unit := by exact_mod_cast pow10_pos _
    have hpow : (unit : ℚ) = 10 ^ (-d.exponent) := pow10_toNat (by omega)
    have hvalue : d.toRat = d.signed / unit := by
      rw [toRat, hpow, zpow_neg, div_inv_eq_mul]
    have hiff : d.toRat = i ↔ d.signed = i * unit := by
      rw [hvalue, div_eq_iff hunit.ne']
      exact_mod_cast Iff.rfl
    have hdvd : d.coefficient % unit = 0 ↔ (unit : Int) ∣ d.signed := by
      rw [← Nat.dvd_iff_mod_eq_zero, ← d.natAbs_signed, Int.natCast_dvd]
    have hunitInt : (unit : Int) ≠ 0 := by exact_mod_cast (pow10_pos _).ne'
    change (if d.coefficient % unit = 0 then some (d.signed / unit) else none) = some i ↔ _
    rw [hiff]
    split
    · rename_i hwhole
      rw [Option.some_inj]
      exact Int.ediv_eq_iff_eq_mul_left hunitInt (hdvd.1 hwhole)
    · rename_i hpart
      constructor
      · intro h
        cases h
      · intro h
        exact absurd (hdvd.2 ⟨i, by rw [h, mul_comm]⟩) hpart

namespace Double

/-- What a finite double is written as. -/
theorem exact_of_parts {x : Float} {negative : Bool} {m : Nat} {q : Int}
    (h : parts x = .finite negative m q) : exact x = .finite (ofParts negative m q) := by
  simp only [exact, h]

section

variable {x : Float} {c : Decimal} (hx : exact x = .finite c) {i : Int} (hi : toInt? x = some i)

include hx hi

/-- What a whole double is written as, with its sign. -/
theorem exists_parts_of_toInt? : ∃ negative m q, parts x = .finite negative m q ∧
    c = ofParts negative m q ∧ (m : ℚ) * 2 ^ q = i.natAbs ∧
    (i : ℚ) = if negative then -(i.natAbs : ℚ) else i.natAbs := by
  have hvalue := toRat?_of_toInt? hi
  unfold exact at hx
  unfold toRat? at hvalue
  cases hparts : parts x with
  | nan => simp [hparts] at hx
  | infinity negative => simp [hparts] at hx
  | finite negative m q =>
    simp only [hparts, DecimalValue.finite.injEq] at hx
    simp only [hparts, Option.some_inj] at hvalue
    have hnonneg : (0 : ℚ) ≤ m * 2 ^ q := mul_nonneg (Nat.cast_nonneg m) (two_zpow_pos q).le
    have habs : ((i.natAbs : Nat) : ℚ) = |(i : ℚ)| := by
      rw [← Int.cast_abs, Int.abs_eq_natAbs, Int.cast_natCast]
    have hsize : (m : ℚ) * 2 ^ q = i.natAbs := by
      rw [habs, ← hvalue, mul_assoc, abs_mul, abs_of_nonneg hnonneg]
      cases negative <;> simp
    refine ⟨negative, m, q, rfl, hx.symm, hsize, ?_⟩
    rw [← hvalue, ← hsize, mul_assoc]
    cases negative <;> simp

/-- A whole double is written as a whole number. -/
theorem exists_int_of_toInt? : ∃ j : Int, c.toRat = j := by
  obtain ⟨negative, m, q, hparts, rfl, hsize, -⟩ := exists_parts_of_toInt? hx hi
  rcases Nat.eq_zero_or_pos m with rfl | hm
  · exact ⟨0, by simp [ofParts, Decimal.toRat, Decimal.signed]⟩
  · have hexponent := shortest_exponent_nonneg q hm (canonical_parts hparts).lt hsize
    have hwhole : shortestValue m q = ((shortest m q).1 * 10 ^ (shortest m q).2.toNat : Nat) := by
      rw [shortestValue]
      push_cast
      rw [← zpow_natCast, Int.toNat_of_nonneg hexponent]
    refine ⟨if negative then -((shortest m q).1 * 10 ^ (shortest m q).2.toNat : Nat)
      else ((shortest m q).1 * 10 ^ (shortest m q).2.toNat : Nat), ?_⟩
    rw [toRat_ofParts negative q hm, hwhole]
    cases negative <;> simp

/-- **A whole double below `2 ^ 53` is written as itself.** -/
theorem toRat_exact_of_toInt? (hlt : i.natAbs < 2 ^ 53) : c.toRat = i := by
  obtain ⟨negative, m, q, hparts, rfl, hsize, hsign⟩ := exists_parts_of_toInt? hx hi
  rw [hsign]
  rcases Nat.eq_zero_or_pos m with rfl | hm
  · rw [← hsize]
    simp [ofParts, Decimal.toRat, Decimal.signed]
  · rw [toRat_ofParts negative q hm, shortestValue_of_whole hm (canonical_parts hparts) hsize hlt]

end

end Double

/-! ## Fifteen digits -/

/-- The number has at most `digits` digits, apart from zeros at either end. -/
def HasDigits (digits : Nat) (v : ℚ) : Prop :=
  ∃ c k : Int, c.natAbs < 10 ^ digits ∧ v = c * 10 ^ k

/-- **A decimal of at most fifteen digits becomes a double that is written as it**, unless it is so
small that doubles have fewer digits there, or too large for doubles. -/
theorem isWritten_float_of_digits {d : Decimal} (hd : HasDigits 15 d.toRat)
    (hlow : 2 ^ (-1022 : Int) ≤ |d.toRat|) (hhigh : |d.toRat| < Double.overflow) :
    (Number.float (Double.ofDecimal d)).IsWritten d.toRat := by
  obtain ⟨c, k, hc, hvalue⟩ := hd
  obtain ⟨m, q, hcanonical, hleading, hreads⟩ := Double.exists_reads hlow hhigh
  have hm : 0 < m := lt_of_lt_of_le (by norm_num) hleading
  have hsize : |d.toRat| = c.natAbs * 10 ^ k := by
    rw [hvalue, abs_mul, abs_of_pos (Decimal.ten_zpow_pos k), ← Int.cast_abs, Int.abs_eq_natAbs,
      Int.cast_natCast]
  have hshortest : shortestValue m q = |d.toRat| := by
    have hdigits := hreads
    rw [hsize] at hdigits ⊢
    exact Double.shortestValue_of_digits hleading hcanonical.lt hc hdigits
  have hnegative := d.isNegative_iff
  have hne : d.toRat ≠ 0 := by
    intro hzero
    rw [hzero, abs_zero] at hlow
    exact absurd hlow (not_le.2 (Double.two_zpow_pos _))
  refine ⟨_, Double.exact_of_parts (Double.parts_ofDecimal hcanonical hm hreads), ?_⟩
  rw [Double.toRat_ofParts _ q hm, hshortest]
  simp only [Decimal.isNegative, mt d.isZero_iff.1 hne, Bool.not_false, Bool.and_true] at hnegative
  split
  · rename_i hneg
    rw [abs_of_neg (hnegative.1 hneg), neg_neg]
  · rename_i hpos
    exact abs_of_nonneg (not_lt.1 (mt hnegative.2 hpos))

/-- **A number of at most fifteen digits is what some number is written as**, unless it is so small
that doubles have fewer digits there. -/
theorem exists_isWritten_of_digits {v : ℚ} (hv : HasDigits 15 v)
    (hsmall : v = 0 ∨ 2 ^ (-1022 : Int) ≤ |v|) : ∃ n : Number, n.IsWritten v := by
  by_cases hwhole : ∃ i : Int, v = i
  · obtain ⟨i, rfl⟩ := hwhole
    exact ⟨.int i, (Number.isWritten_int_iff i _).2 rfl⟩
  · have hlow := hsmall.resolve_left fun hzero => hwhole ⟨0, by rw [hzero, Int.cast_zero]⟩
    obtain ⟨c, k, hc, rfl⟩ := hv
    have hk : k < 0 := by
      by_contra hnonneg
      refine hwhole ⟨c * 10 ^ k.toNat, ?_⟩
      push_cast
      rw [← zpow_natCast, Int.toNat_of_nonneg (not_lt.1 hnonneg)]
    have hhigh : |(c : ℚ) * 10 ^ k| < Double.overflow := by
      have hcCast : (c.natAbs : ℚ) < 10 ^ 15 := by exact_mod_cast hc
      have hpow : (10 : ℚ) ^ k ≤ 1 := zpow_le_one_of_nonpos₀ (by norm_num) hk.le
      have hbound : (2 : ℚ) ^ (50 : Int) ≤ Double.overflow := Double.two_zpow_le_overflow (by norm_num)
      calc |(c : ℚ) * 10 ^ k| = c.natAbs * 10 ^ k := by
            rw [abs_mul, abs_of_pos (Decimal.ten_zpow_pos k), ← Int.cast_abs, Int.abs_eq_natAbs,
              Int.cast_natCast]
        _ ≤ c.natAbs * 1 := mul_le_mul_of_nonneg_left hpow (Nat.cast_nonneg _)
        _ < 2 ^ (50 : Int) := by
          rw [mul_one]
          exact hcCast.trans (by norm_num)
        _ ≤ Double.overflow := hbound
    have hvalue := Decimal.toRat_ofScaled c k
    rw [← hvalue] at hlow hhigh ⊢
    exact ⟨_, isWritten_float_of_digits ⟨c, k, hc, hvalue⟩ hlow hhigh⟩

/-! ## Decimals as numbers -/

namespace Number

/-- A decimal that is not whole becomes a double. -/
theorem ofDecimal_of_not_whole {d : Decimal} (h : ∀ i : Int, d.toRat ≠ i) :
    ofDecimal d = .float (Double.ofDecimal d) := by
  unfold ofDecimal
  cases hwhole : d.toInt? with
  | none => rfl
  | some i => exact absurd ((d.toInt?_eq_some_iff i).1 hwhole) (h i)

theorem ofDecimal_of_whole {d : Decimal} {i : Int} (h : d.toRat = i) : ofDecimal d = .int i := by
  unfold ofDecimal
  rw [(d.toInt?_eq_some_iff i).2 h]

/-- **A decimal becomes a number that is written as it, if there is one.** -/
theorem isWritten_ofDecimal {d : Decimal} (h : ∃ n : Number, n.IsWritten d.toRat) :
    (ofDecimal d).IsWritten d.toRat := by
  by_cases hwhole : ∃ i : Int, d.toRat = i
  · obtain ⟨i, hi⟩ := hwhole
    rw [ofDecimal_of_whole hi, isWritten_int_iff, hi]
  · have hpart : ∀ i : Int, d.toRat ≠ i := fun i hi => hwhole ⟨i, hi⟩
    obtain ⟨n, c, hc, hvalue⟩ := h
    cases n with
    | int i =>
      cases hc
      exact absurd (hvalue.symm.trans (Decimal.toRat_ofInt i)) (hpart i)
    | float x =>
      have hne : d.toRat ≠ 0 := by exact_mod_cast hpart 0
      have hparts := Double.parts_ofDecimal_exact hc hne hvalue.symm
      rw [ofDecimal_of_not_whole hpart]
      refine ⟨c, ?_, hvalue⟩
      change Double.exact (Double.ofDecimal d) = _
      rw [Double.exact, hparts]
      exact hc

/-- The simplest form of a number that is written as a part of a whole is the number itself. -/
theorem simplest_of_not_whole {n : Number} {v : ℚ} (h : n.IsWritten v) (hv : ∀ i : Int, v ≠ i) :
    n.simplest = n := by
  cases n with
  | int i => rfl
  | float x =>
    obtain ⟨c, hc, rfl⟩ := h
    cases hi : Double.toInt? x with
    | none => simp only [simplest, hi]
    | some i =>
      obtain ⟨j, hj⟩ := Double.exists_int_of_toInt? hc hi
      exact absurd hj (hv j)

/-- The same holds if a whole double becomes an integer afterwards. -/
theorem isWritten_simplest_ofDecimal {d : Decimal} (h : ∃ n : Number, n.IsWritten d.toRat) :
    (ofDecimal d).simplest.IsWritten d.toRat := by
  have hwritten := isWritten_ofDecimal h
  by_cases hwhole : ∃ i : Int, d.toRat = i
  · obtain ⟨i, hi⟩ := hwhole
    rw [ofDecimal_of_whole hi] at hwritten ⊢
    exact hwritten
  · rw [simplest_of_not_whole hwritten fun i hi => hwhole ⟨i, hi⟩]
    exact hwritten

end Number

end Longhand
