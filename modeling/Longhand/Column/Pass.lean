import Longhand.Column.Alignment
/-!
# Passing over the columns

Addition and subtraction go over the digit columns from right to left. In each column a rule turns
the two digits and what comes in from the right into the digit to write and what goes out to the
left: a carry or a borrow.
-/

namespace Longhand.Column

/-- The digit to write and what goes out, from the two digits and what comes in. -/
abbrev Rule := Int → Int → Int → Int × Int

/-- Addition with a carry (`carry_rule`). -/
def carryRule : Rule := fun top bottom incoming =>
  let total := top + bottom + incoming
  (total.emod 10, total.ediv 10)

/-- Subtraction with a borrow (`borrow_rule`). -/
def borrowRule : Rule := fun top bottom incoming =>
  let outgoing := if top - incoming < bottom then 1 else 0
  (top + 10 * outgoing - incoming - bottom, outgoing)

/-- Nothing of a sum is lost: what is written and ten times the carry make it up. -/
theorem carryRule_total (top bottom incoming : Int) :
    (carryRule top bottom incoming).1 + 10 * (carryRule top bottom incoming).2 =
      top + bottom + incoming :=
  Int.emod_add_mul_ediv (top + bottom + incoming) 10

theorem carryRule_digit (top bottom incoming : Int) :
    0 ≤ (carryRule top bottom incoming).1 ∧ (carryRule top bottom incoming).1 < 10 :=
  ⟨Int.emod_nonneg _ (by decide), Int.emod_lt_of_pos _ (by decide)⟩

/-- Nothing of a difference is lost: what is written less ten times the borrow makes it up. -/
theorem borrowRule_total (top bottom incoming : Int) :
    (borrowRule top bottom incoming).1 - 10 * (borrowRule top bottom incoming).2 =
      top - incoming - bottom := by
  simp only [borrowRule]
  omega

/-- With digits and a borrow of at most one, what is written is a digit. -/
theorem borrowRule_digit {top bottom incoming : Int} (ht : 0 ≤ top ∧ top < 10)
    (hb : 0 ≤ bottom ∧ bottom < 10) (hi : 0 ≤ incoming ∧ incoming ≤ 1) :
    0 ≤ (borrowRule top bottom incoming).1 ∧ (borrowRule top bottom incoming).1 < 10 := by
  simp only [borrowRule]
  split <;> omega

/-- What happened in a column. `next` is the column to the left, 0 after the last digit column. -/
structure Entry where
  column : Nat
  next : Nat
  top : Int
  bottom : Int
  incoming : Int
  digit : Int
  outgoing : Int
deriving DecidableEq, Repr, Inhabited

/-- The column at the head of a list, 0 if there is none. -/
def nextIndex : List Column → Nat
  | [] => 0
  | c :: _ => c.index

/-- The entries for columns from right to left: the loop of `column_pass`. -/
def pass (rule : Rule) (incoming : Int) : List Column → List Entry
  | [] => []
  | c :: rest =>
    let top : Int := c.top.val
    let bottom : Int := c.bottom.val
    let (digit, outgoing) := rule top bottom incoming
    ⟨c.index, nextIndex rest, top, bottom, incoming, digit, outgoing⟩ :: pass rule outgoing rest

def passAll (rule : Rule) (a : Alignment) : List Entry :=
  pass rule 0 a.columns.reverse

end Longhand.Column
