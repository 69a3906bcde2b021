import Longhand.Proofs.ExactCalculation
import Longhand.Proofs.Operands
import Longhand.Proofs.PackedDoubles
/-!
# The precision is wide enough

The digits and zeros of the operands, and two more, are the precision in which a problem is worked.
Every calculation on decimals that a problem takes has room for its digits there, whatever exponents
and signs the operands have, and its exponent stays far from the bounds of a calculation
(`calculations_keep_all_digits`). So nothing is rounded, and nothing overflows.
-/

namespace Longhand

/-! ## Operands -/

theorem Double.moderate_of_exact {x : Float} {d : Decimal} (h : exact x = .finite d) :
    d.Moderate := by
  obtain ⟨negative, m, q, -, hc, rfl⟩ := exists_parts_of_exact h
  exact moderate_ofParts negative hc.lt hc.least hc.le

/-- A number that can be an operand takes some hundred digits and zeros at most. -/
structure Decimal.Short (d : Decimal) : Prop where
  digits : d.digitCount ≤ 309
  exponent : d.exponent.natAbs ≤ 1200

theorem Number.Denotes.short {n : Number} {d : Decimal} (h : n.Denotes d) : d.Short := by
  cases n with
  | int i =>
    obtain rfl : Decimal.ofInt i = d := DecimalValue.finite.inj h.exact_eq
    have hheld : i.natAbs < Double.pow2 1024 - Double.pow2 970 := by
      simpa [Double.holdsInt] using h.holdsInt i rfl
    have hroom : Double.pow2 1024 - Double.pow2 970 ≤ pow10 309 := by decide +kernel
    exact ⟨Digits.length_ofNat_le (by norm_num) (hheld.trans_le hroom), Nat.zero_le _⟩
  | float x =>
    have hmoderate := Double.moderate_of_exact h.exact_eq
    have hdigits := hmoderate.digitCount_le
    have hlow := hmoderate.low
    have hhigh := hmoderate.high
    exact ⟨by omega, by omega⟩

/-! ## Exponents -/

namespace Decimal

/-- A calculation in a precision gives the decimal as it is. -/
structure HeldIn (precision : Nat) (d : Decimal) : Prop where
  digits : d.digitCount ≤ precision
  exponent_ge : minExponent precision ≤ d.exponent
  adjusted_le : d.adjusted ≤ maxAdjusted

theorem HeldIn.of_natAbs_le {precision : Nat} {d : Decimal} (hdigits : d.digitCount ≤ precision)
    (hprecision : precision ≤ 4000) (hexponent : d.exponent.natAbs ≤ 4000) : d.HeldIn precision := by
  have hpos := d.digitCount_pos
  refine ⟨hdigits, ?_, ?_⟩
  · simp only [minExponent, minAdjusted]
    omega
  · simp only [adjusted, maxAdjusted]
    omega

theorem length_fraction_le (d : Decimal) : d.numeral.fraction.length ≤ d.exponent.natAbs := by
  unfold numeral
  split
  · exact Nat.zero_le _
  · have htrim := Digits.length_trimEnd_le
      (Digits.ofNatPadded (-d.exponent).toNat (d.coefficient % pow10 (-d.exponent).toNat))
    rw [Digits.length_ofNatPadded] at htrim
    simp only
    omega

theorem natAbs_exponent_hundredth_le (d : Decimal) :
    d.hundredth.exponent.natAbs ≤ d.exponent.natAbs + 2 := by
  unfold hundredth
  split
  · simp
  · split <;> simp only <;> omega

end Decimal

namespace Problem

def terms : Problem → List Term
  | .negation value => [value]
  | .binary _ left right => [left, right]

theorem exactPrecision_terms (p : Problem) :
    exactPrecision (p.terms.map (·.number.exact)) = .ok p.precision := by
  cases p with
  | negation value =>
    simp only [terms, List.map_cons, List.map_nil, value.exact_eq]
    rfl
  | binary op left right =>
    simp only [terms, List.map_cons, List.map_nil, left.exact_eq, right.exact_eq]
    rfl

section

variable {p : Problem} (hp : ∀ t ∈ p.terms, t.number.Denotes t.exact)

include hp

theorem precision_le : p.precision ≤ 4000 := by
  have hspan {t : Term} (ht : t ∈ p.terms) : t.exact.span ≤ 1509 := by
    obtain ⟨hdigits, hexponent⟩ := (hp t ht).short
    exact Nat.add_le_add hdigits hexponent
  cases p with
  | negation value =>
    have hvalue : value.exact.span ≤ 1509 := hspan (by simp [terms])
    simp only [precision, precisionOfSpans, defaultPrecision, List.foldl_cons, List.foldl_nil]
    omega
  | binary op left right =>
    have hleft : left.exact.span ≤ 1509 := hspan (by simp [terms])
    have hright : right.exact.span ≤ 1509 := hspan (by simp [terms])
    simp only [precision, precisionOfSpans, defaultPrecision, List.foldl_cons, List.foldl_nil]
    omega

theorem Calculates.natAbs_exponent_le {rounded d : Decimal} {v : ℚ}
    (h : p.Calculates rounded d v) : d.exponent.natAbs ≤ 4000 := by
  have hexponent {t : Term} (ht : t ∈ p.terms) : t.exact.exponent.natAbs ≤ 1200 :=
    (hp t ht).short.exponent
  cases h with
  | negation value =>
    have hvalue : value.exact.exponent.natAbs ≤ 1200 := hexponent (by simp [terms])
    exact hvalue.trans (by norm_num)
  | sum l r | difference l r =>
    have hl : l.exact.exponent.natAbs ≤ 1200 := hexponent (by simp [terms])
    have hr : r.exact.exponent.natAbs ≤ 1200 := hexponent (by simp [terms])
    change (min l.exact.exponent r.exact.exponent).natAbs ≤ 4000
    omega
  | product l r =>
    have hl : l.exact.exponent.natAbs ≤ 1200 := hexponent (by simp [terms])
    have hr : r.exact.exponent.natAbs ≤ 1200 := hexponent (by simp [terms])
    change (l.exact.exponent + r.exact.exponent).natAbs ≤ 4000
    omega
  | point l r hscaled =>
    have hl : l.exact.exponent.natAbs ≤ 1200 := hexponent (by simp [terms])
    have hr : r.exact.exponent.natAbs ≤ 1200 := hexponent (by simp [terms])
    have hleft := l.exact.length_fraction_le
    have hright := r.exact.length_fraction_le
    rw [hscaled, Multiplication.shift_total]
    simp only [Multiplication.product, Multiplication.scale]
    omega
  | rate l r =>
    have hr : r.exact.exponent.natAbs ≤ 1200 := hexponent (by simp [terms])
    have hrate := r.exact.natAbs_exponent_hundredth_le
    omega
  | part l r =>
    have hl : l.exact.exponent.natAbs ≤ 1200 := hexponent (by simp [terms])
    have hr : r.exact.exponent.natAbs ≤ 1200 := hexponent (by simp [terms])
    have hrate := r.exact.natAbs_exponent_hundredth_le
    rw [rate_eq]
    change (l.exact.exponent + r.exact.hundredth.exponent).natAbs ≤ 4000
    omega

end

/-! ## Main result -/

/-- **No calculation is rounded.** For operands of every sign and exponent, in the precision that
`exactPrecision` gives for them, each calculation on decimals that a problem takes gives the decimal
with all its digits, and this has exactly the value that it should. -/
theorem calculations_keep_all_digits {p : Problem} (hp : ∀ t ∈ p.terms, t.number.Denotes t.exact) :
    exactPrecision (p.terms.map (·.number.exact)) = .ok p.precision ∧
      ∀ rounded d v, p.Calculates rounded d v →
        rounded = d ∧ d.toRat = v ∧ d.HeldIn p.precision := by
  refine ⟨p.exactPrecision_terms, fun rounded d v h => ⟨h.eq_exact, h.toRat_eq, ?_⟩⟩
  exact .of_natAbs_le h.digitCount_le (precision_le hp) (h.natAbs_exponent_le hp)

/-- A great number and a small one, which lie six hundred places apart. -/
theorem calculations_keep_all_digits_far_apart :
    ∃ p : Problem, (∀ t ∈ p.terms, t.number.Denotes t.exact) ∧
      exactPrecision (p.terms.map (·.number.exact)) = .ok 604 ∧
      p.resultDecimal = ⟨false, 10 ^ 600 + 1, -300⟩ := by
  have hl : (Number.float 1e300).Denotes ⟨false, 1, 300⟩ :=
    ⟨by decide +kernel, fun i h => by cases h⟩
  have hr : (Number.float 1e-300).Denotes ⟨false, 1, -300⟩ :=
    ⟨by decide +kernel, fun i h => by cases h⟩
  have hterms : ∀ t ∈ (Problem.binary .addition hl.term hr.term).terms,
      t.number.Denotes t.exact := by
    simp only [terms, List.forall_mem_cons, List.not_mem_nil, false_imp_iff, implies_true, and_true]
    exact ⟨hl, hr⟩
  have hdigits : precisionOfSpans [Decimal.span ⟨false, 1, 300⟩, Decimal.span ⟨false, 1, -300⟩] =
      604 := by
    decide +kernel
  have hvalue : (⟨false, 1, 300⟩ : Decimal) + ⟨false, 1, -300⟩ = ⟨false, 10 ^ 600 + 1, -300⟩ := by
    decide +kernel
  obtain ⟨hprecision, hcalculations⟩ := calculations_keep_all_digits hterms
  obtain ⟨hsum, -, -⟩ := hcalculations _ _ _ (.sum hl.term hr.term)
  exact ⟨_, hterms, hprecision.trans (congrArg Except.ok hdigits), hsum.trans hvalue⟩

end Problem

end Longhand
