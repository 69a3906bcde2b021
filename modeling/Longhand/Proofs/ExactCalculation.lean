import Longhand.Proofs.LongMultiplication
import Longhand.Proofs.Outcomes
import Longhand.Proofs.QuotientRounding
import Longhand.Proofs.RoundedDoubles
/-!
# Calculations are exact

The precision of a problem has room for all digits of its sum, difference, product and percentage,
so no calculation on decimals is rounded: the result is the exact result as a decimal
(`resultDecimal_eq`), and a quotient is the exact quotient, rounded once.
-/

namespace Longhand

namespace Decimal

/-! ## Digits of results -/

theorem digitCount_le_of_lt {d : Decimal} {k : Nat} (hk : 0 < k) (h : d.coefficient < pow10 k) :
    d.digitCount ≤ k :=
  Digits.length_ofNat_le hk h

theorem coefficient_lt (d : Decimal) : d.coefficient < pow10 d.digitCount :=
  Digits.lt_pow10_length d.coefficient

/-- A part of a coefficient has no more digits. -/
theorem digitCount_le_of_coefficient_le {a b : Decimal} (h : a.coefficient ≤ b.coefficient) :
    a.digitCount ≤ b.digitCount :=
  digitCount_le_of_lt b.digitCount_pos (h.trans_lt b.coefficient_lt)

theorem natAbs_scaledTo_lt (d : Decimal) (e : Int) :
    (d.scaledTo e).natAbs < pow10 (d.digitCount + (d.exponent - e).toNat) := by
  rw [scaledTo, Int.natAbs_mul, natAbs_signed, Int.natAbs_natCast, pow10_add]
  exact Nat.mul_lt_mul_of_pos_right d.coefficient_lt (pow10_pos _)

/-- A sum has at most one digit more than both operands span. -/
theorem digitCount_add_le (a b : Decimal) : (a + b).digitCount ≤ a.span + b.span + 1 := by
  let e := min a.exponent b.exponent
  have ha := a.natAbs_scaledTo_lt e
  have hb := b.natAbs_scaledTo_lt e
  have hcount := a.digitCount_pos
  have hcount' := b.digitCount_pos
  have hroom (k : Nat) (hk : k ≤ a.span + b.span) : pow10 k ≤ pow10 (a.span + b.span) :=
    Nat.pow_le_pow_right (by norm_num) hk
  have ha' := ha.trans_le (hroom _ (by simp only [span]; omega))
  have hb' := hb.trans_le (hroom _ (by simp only [span]; omega))
  refine digitCount_le_of_lt (by omega) ?_
  change (a.scaledTo e + b.scaledTo e).natAbs < _
  rw [pow10_succ]
  have htriangle := Int.natAbs_add_le (a.scaledTo e) (b.scaledTo e)
  omega

theorem digitCount_sub_le (a b : Decimal) : (a - b).digitCount ≤ a.span + b.span + 1 :=
  digitCount_add_le a (-b)

theorem digitCount_mul_le (a b : Decimal) : (a * b).digitCount ≤ a.digitCount + b.digitCount := by
  have ha := a.digitCount_pos
  refine digitCount_le_of_lt (by omega) ?_
  rw [pow10_add]
  exact Nat.mul_lt_mul'' a.coefficient_lt b.coefficient_lt

theorem digitCount_hundredth_le (d : Decimal) : d.hundredth.digitCount ≤ d.digitCount := by
  refine digitCount_le_of_coefficient_le ?_
  unfold hundredth
  split
  · exact Nat.div_le_self _ _
  · split
    · exact Nat.div_le_self _ _
    · exact le_rfl

/-! ## Values of results -/

theorem toRat_mul (a b : Decimal) : (a * b).toRat = a.toRat * b.toRat := by
  change (mul a b).toRat = _
  have hsigned : (mul a b).signed = a.signed * b.signed := by
    cases ha : a.negative <;> cases hb : b.negative <;> simp [mul, signed, ha, hb]
  have hexponent : (mul a b).exponent = a.exponent + b.exponent := rfl
  rw [toRat, hsigned, hexponent, ten_zpow_add, toRat, toRat]
  push_cast
  ring

theorem toRat_hundredth (d : Decimal) : d.hundredth.toRat = d.toRat / 100 := by
  obtain ⟨negative, n, e⟩ := d
  have hplaces (k : Nat) : (10 : ℚ) ^ (e - k) * 10 ^ k = 10 ^ e := by
    rw [← zpow_natCast, ← ten_zpow_add, sub_add_cancel]
  unfold hundredth
  split
  · rename_i hmod
    obtain ⟨k, hk⟩ := Nat.dvd_of_mod_eq_zero hmod
    simp only at hk
    simp only [toRat_signed_mk, hk, Nat.mul_div_cancel_left k (by norm_num : 0 < 100)]
    push_cast
    ring
  · split
    · rename_i hmod
      obtain ⟨k, hk⟩ := Nat.dvd_of_mod_eq_zero hmod
      have hplace := hplaces 1
      simp only at hk
      simp only [toRat_signed_mk, hk, Nat.mul_div_cancel_left k (by norm_num : 0 < 10)]
      push_cast at hplace ⊢
      rw [← hplace]
      ring
    · have hplace := hplaces 2
      simp only [toRat_signed_mk]
      push_cast at hplace
      rw [← hplace]
      ring

end Decimal

/-! ## Problems as they are posed -/

/-- Only a negation has no right operand. -/
theorem OperationName.hasRight_of_resolve {name : OperationName} {hasRight : Bool}
    {operation : Operation} (h : name.resolve hasRight = .ok operation) :
    hasRight = true ↔ operation ≠ .negation := by
  unfold resolve at h
  simp only at h
  split at h
  · split at h
    · cases h
    · rename_i hnone
      cases h
      simpa using hnone
  · split at h
    · rename_i hsome
      cases h
      simpa using hsome
    · cases h
  · cases h
  · cases h

theorem Operand.eq_number_of_term {o : Operand} {t : Term} (h : o.term = .ok t) :
    o = .number t.number := by
  unfold term at h
  split at h
  · split at h
    · split at h
      · cases h
        rfl
      · cases h
    · cases h
      rfl
    · cases h
  · cases h

namespace Problem

/-- The exact result of a problem; a quotient is rounded to two places. -/
def exactResult : Problem → ℚ
  | .negation value => -value.exact.toRat
  | .binary .addition left right => left.exact.toRat + right.exact.toRat
  | .binary .subtraction left right => left.exact.toRat - right.exact.toRat
  | .binary .multiplication left right => left.exact.toRat * right.exact.toRat
  | .binary .percentage left right => left.exact.toRat * right.exact.toRat / 100
  | .binary .division left right =>
    halfUp (left.exact.toRat / right.exact.toRat * 10 ^ Division.places) / 10 ^ Division.places

/-- The problem is the one that an operation and operands, as they are given, ask for. -/
def IsPosedBy (name : OperationName) (left : Operand) (right : Option Operand) : Problem → Prop
  | .negation value =>
    name.resolve false = .ok .negation ∧ left = .number value.number ∧ right = none
  | .binary op l r =>
    name.resolve true = .ok (.binary op) ∧ left = .number l.number ∧ right = some (.number r.number)

/-- A problem that is worked is the one asked for, and it has passed its check. -/
theorem isPosedBy_of_ofTask {name : OperationName} {left : Operand} {right : Option Operand}
    {p : Problem} (h : ofTask name left right = .ok p) :
    p.IsPosedBy name left right ∧ p.check = .ok () := by
  unfold ofTask at h
  obtain ⟨operation, hname, h⟩ := exists_of_bind_eq_ok h
  obtain ⟨l, hl, h⟩ := exists_of_bind_eq_ok h
  obtain ⟨r, hr, h⟩ := exists_of_bind_eq_ok h
  have hname := eq_ok_of_mapError hname
  have hbinary := OperationName.hasRight_of_resolve hname
  have hleft := Operand.eq_number_of_term hl
  cases right with
  | none =>
    obtain rfl := Except.ok.inj hr
    obtain rfl : operation = .negation := by simpa using hbinary
    obtain rfl := Except.ok.inj h
    exact ⟨⟨hname, hleft, rfl⟩, rfl⟩
  | some right =>
    obtain ⟨r, hterm, rfl⟩ := exists_of_map_eq_ok hr
    cases operation with
    | negation => exact absurd rfl (hbinary.1 rfl)
    | binary op =>
      obtain ⟨problem, hproblem, h⟩ := exists_of_bind_eq_ok h
      obtain rfl := Except.ok.inj hproblem
      obtain ⟨_, hcheck, h⟩ := exists_of_bind_eq_ok h
      obtain rfl := Except.ok.inj h
      exact ⟨⟨hname, hleft, congrArg some (Operand.eq_number_of_term hterm)⟩,
        eq_ok_of_mapError hcheck⟩

/-- Operands that are worked on by their digits are not negative. -/
theorem nonneg_of_check {op : Operator} {left right : Term} (hop : op ≠ .percentage)
    (h : (binary op left right).check = .ok ()) : 0 ≤ left.exact.toRat ∧ 0 ≤ right.exact.toRat := by
  have hsigns : (left.exact.isNegative || right.exact.isNegative) = false := by
    rw [Bool.eq_false_iff]
    intro hneg
    cases op <;> simp_all [check]
  rw [Bool.or_eq_false_iff, Bool.eq_false_iff, Bool.eq_false_iff, ne_eq, ne_eq,
    Decimal.isNegative_iff, Decimal.isNegative_iff, not_lt, not_lt] at hsigns
  exact hsigns

/-- The divisor of a division that is worked is not zero either. -/
theorem divisor_pos_of_check {left right : Term} (h : (binary .division left right).check = .ok ()) :
    0 ≤ left.exact.toRat ∧ 0 < right.exact.toRat := by
  obtain ⟨hl, hr⟩ := nonneg_of_check (by decide) h
  have hzero : right.exact.isZero = false := by
    rw [Bool.eq_false_iff]
    intro hzero
    simp only [check, hzero, and_self, if_true] at h
    split at h <;> cases h
  rw [Bool.eq_false_iff, ne_eq, Decimal.isZero_iff] at hzero
  exact ⟨hl, lt_of_le_of_ne hr (Ne.symm hzero)⟩

/-! ## Nothing is rounded -/

/-- The calculations on decimals that working a problem takes: what comes out in the precision of the
problem, what would come out with all digits, and the value that it should have. A quotient is worked
out on integers and takes none. -/
inductive Calculates : Problem → Decimal → Decimal → ℚ → Prop
  | negation (value : Term) :
      Calculates (.negation value) (resultDecimal (.negation value)) (-value.exact)
        (-value.exact.toRat)
  | sum (l r : Term) :
      Calculates (.binary .addition l r) (resultDecimal (.binary .addition l r)) (l.exact + r.exact)
        (l.exact.toRat + r.exact.toRat)
  | difference (l r : Term) :
      Calculates (.binary .subtraction l r) (resultDecimal (.binary .subtraction l r))
        (l.exact - r.exact) (l.exact.toRat - r.exact.toRat)
  | product (l r : Term) :
      Calculates (.binary .multiplication l r) (resultDecimal (.binary .multiplication l r))
        (l.exact * r.exact) (l.exact.toRat * r.exact.toRat)
  /-- The point is put into the sum of the partial products. -/
  | point (l r : Term) {scaled : Decimal}
      (hscaled : scaled = (Decimal.ofScaled (Digits.value (Multiplication.total
        (Multiplication.partials l.exact.numeral r.exact.numeral))) 0).shift
          (-Multiplication.scale l.exact.numeral r.exact.numeral)) :
      Calculates (.binary .multiplication l r)
        (scaled.roundTo (Problem.binary .multiplication l r).precision) scaled
        (|l.exact.toRat| * |r.exact.toRat|)
  | rate (l r : Term) :
      Calculates (.binary .percentage l r)
        (Problem.rate (Problem.binary .percentage l r).precision r.exact) r.exact.hundredth
        (r.exact.toRat / 100)
  | part (l r : Term) :
      Calculates (.binary .percentage l r) (resultDecimal (.binary .percentage l r))
        (l.exact * Problem.rate (Problem.binary .percentage l r).precision r.exact)
        (l.exact.toRat * (r.exact.toRat / 100))

section

variable {op : Operator} {l r : Term}

theorem span_add_le_precision (op : Operator) (l r : Term) :
    l.exact.span + r.exact.span + 2 ≤ (Problem.binary op l r).precision := by
  simp [precision, precisionOfSpans]

theorem rate_eq (l r : Term) :
    Problem.rate (Problem.binary .percentage l r).precision r.exact = r.exact.hundredth := by
  have hroom := span_add_le_precision .percentage l r
  have hdigits := r.exact.digitCount_hundredth_le
  have hspan : r.exact.digitCount ≤ r.exact.span := Nat.le_add_right _ _
  exact Multiplication.roundTo_of_digitCount_le (by omega)

variable {p : Problem} {rounded d : Decimal} {v : ℚ} (h : p.Calculates rounded d v)

include h

theorem Calculates.rounded_eq : rounded = d.roundTo p.precision := by
  cases h <;> rfl

/-- **The precision has room for all digits** of every calculation. -/
theorem Calculates.digitCount_le : d.digitCount ≤ p.precision := by
  have hspan (t : Term) : t.exact.digitCount ≤ t.exact.span := Nat.le_add_right _ _
  cases h with
  | negation value =>
    have hcount : (-value.exact).digitCount ≤ value.exact.span := hspan value
    have hroom : value.exact.span + 2 ≤ (Problem.negation value).precision := by
      simp [precision, precisionOfSpans]
    omega
  | sum l r =>
    have hroom := span_add_le_precision .addition l r
    have hcount := Decimal.digitCount_add_le l.exact r.exact
    omega
  | difference l r =>
    have hroom := span_add_le_precision .subtraction l r
    have hcount := Decimal.digitCount_sub_le l.exact r.exact
    omega
  | product l r =>
    have hroom := span_add_le_precision .multiplication l r
    have hcount := Decimal.digitCount_mul_le l.exact r.exact
    have hleft := hspan l
    have hright := hspan r
    omega
  | point l r hscaled =>
    rw [hscaled, Multiplication.shift_total]
    exact Multiplication.digitCount_product_le l.exact r.exact
  | rate l r =>
    have hroom := span_add_le_precision .percentage l r
    have hcount := r.exact.digitCount_hundredth_le
    have hright := hspan r
    omega
  | part l r =>
    have hroom := span_add_le_precision .percentage l r
    have hcount := Decimal.digitCount_mul_le l.exact r.exact.hundredth
    have hrate := r.exact.digitCount_hundredth_le
    have hleft := hspan l
    have hright := hspan r
    rw [rate_eq]
    omega

theorem Calculates.eq_exact : rounded = d := by
  rw [h.rounded_eq, Multiplication.roundTo_of_digitCount_le h.digitCount_le]

theorem Calculates.toRat_eq : d.toRat = v := by
  cases h with
  | negation value => exact Decimal.toRat_neg _
  | sum l r => exact Decimal.toRat_add _ _
  | difference l r => exact Decimal.toRat_sub _ _
  | product l r => exact Decimal.toRat_mul _ _
  | point l r hscaled =>
    rw [hscaled, Multiplication.shift_total, Multiplication.toRat_product, Decimal.toRat_numeral,
      Decimal.toRat_numeral]
  | rate l r => exact Decimal.toRat_hundredth _
  | part l r => rw [rate_eq, Decimal.toRat_mul, Decimal.toRat_hundredth]

end

/-- **The result as a decimal is the exact result.** -/
theorem toRat_resultDecimal {p : Problem} (h : p.check = .ok ()) :
    p.resultDecimal.toRat = p.exactResult := by
  have hvalue {d : Decimal} {v : ℚ} (hd : p.Calculates p.resultDecimal d v) :
      p.resultDecimal.toRat = v := by
    rw [hd.eq_exact, hd.toRat_eq]
  cases p with
  | negation value => exact hvalue (.negation value)
  | binary op left right =>
    cases op with
    | addition => exact hvalue (.sum left right)
    | subtraction => exact hvalue (.difference left right)
    | multiplication => exact hvalue (.product left right)
    | percentage => exact (hvalue (.part left right)).trans (mul_div_assoc _ _ _).symm
    | division =>
      obtain ⟨hl, hr⟩ := divisor_pos_of_check h
      change (left.exact.divideHalfUp right.exact Division.places).toRat = _
      rw [Decimal.divideHalfUp_eq hl hr, Decimal.toRat_mk, zpow_neg, zpow_natCast, ← div_eq_mul_inv]
      rfl

end Problem

end Longhand
