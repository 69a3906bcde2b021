import Longhand.Problem.Steps
import Longhand.Proofs.Rational
/-!
# Operands that can be worked on paper

A finite double, or an integer within the doubles, denotes the decimal it is written as. Two such
operands that are not negative make a problem of every operation worked on digits, a division
apart whose divisor is zero.
-/

namespace Longhand

/-- The number is a finite double or an integer within the doubles, and `d` is its exact decimal. -/
structure Number.Denotes (n : Number) (d : Decimal) : Prop where
  exact_eq : n.exact = .finite d
  holdsInt : ∀ i, n = .int i → Double.holdsInt i = true

/-- The number as the term of a problem. -/
def Number.Denotes.term {n : Number} {d : Decimal} (h : n.Denotes d) : Term :=
  ⟨n, d, h.exact_eq⟩

theorem Operand.term_number {n : Number} {d : Decimal} (h : n.Denotes d) :
    Operand.term (.number n) = .ok h.term := by
  obtain ⟨he, hi⟩ := h
  unfold Operand.term
  cases n with
  | int i =>
    cases he
    simp [Number.exact, hi i rfl, Number.Denotes.term]
  | float x =>
    simp only
    split
    · rename_i hx _
      exact Number.noConfusion hx
    · rename_i hx _
      cases he.symm.trans hx
      rfl
    · rename_i hx _
      exact absurd he (hx d)

/-- The operations whose method works on the digits of its operands. -/
theorem Problem.ofTask_binary {name : OperationName} {op : Operator} {left right : Number}
    {d v : Decimal} (hname : name.resolve true = .ok (.binary op)) (hop : op ≠ .percentage)
    (hl : left.Denotes d) (hr : right.Denotes v) (hd : 0 ≤ d.toRat) (hv : 0 ≤ v.toRat)
    (hz : op = .division → v.toRat ≠ 0) :
    Problem.ofTask name (.number left) (some (.number right)) =
      .ok (.binary op hl.term hr.term) := by
  have hdn : d.isNegative = false := by
    rw [Bool.eq_false_iff, ne_eq, Decimal.isNegative_iff]; exact not_lt.2 hd
  have hvn : v.isNegative = false := by
    rw [Bool.eq_false_iff, ne_eq, Decimal.isNegative_iff]; exact not_lt.2 hv
  have hvz : op = .division → v.isZero = false := fun h => by
    rw [Bool.eq_false_iff, ne_eq, Decimal.isZero_iff]; exact hz h
  have hcheck : (Problem.binary op hl.term hr.term).check = .ok () := by
    cases op <;> simp_all [Problem.check, Number.Denotes.term]
  simp [Problem.ofTask, hname, Operand.term_number hl, Operand.term_number hr, Except.mapError,
    hcheck, bind, Except.bind]

end Longhand
