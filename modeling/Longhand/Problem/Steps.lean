import Longhand.Column.Steps
import Longhand.Division.Steps
import Longhand.Multiplication.Steps
import Longhand.Problem.Basic
/-!
# The steps of a problem

Each operation has its written method, which works on the digits of the exact decimals. The result
that every step carries is the exact result as a number, or the quotient rounded to two places.
-/

namespace Longhand.Problem

def rate (precision : Nat) (right : Decimal) : Decimal :=
  right.hundredth.roundTo precision

/-- The result as a decimal. -/
def resultDecimal (p : Problem) : Decimal :=
  match p with
  | .negation value => (-value.exact).roundTo p.precision
  | .binary op left right =>
    match op with
    | .addition => (left.exact + right.exact).roundTo p.precision
    | .subtraction => (left.exact - right.exact).roundTo p.precision
    | .multiplication => (left.exact * right.exact).roundTo p.precision
    | .division => left.exact.divideHalfUp right.exact Division.places
    | .percentage => (left.exact * rate p.precision right.exact).roundTo p.precision

/-- The result as a number. A quotient whose double is whole is an integer. -/
def result (p : Problem) : Number :=
  let n := Number.ofDecimal p.resultDecimal
  if p.operation = .binary .division then n.simplest else n

def operands : Problem → Operands
  | .negation value => ⟨value.number.simplest, none⟩
  | .binary _ left right => ⟨left.number.simplest, some right.number.simplest⟩

def plain (n : Number) : String :=
  String.ofList n.exact.plain

/-- The pages of a negation, with the result as text (`_negation_steps`). -/
def negationDrafts (value : Decimal) (result : String) : List Draft :=
  let text := String.ofList value.plain
  let negated := if value.isNegative then s!"-({text})" else s!"-{text}"
  let width := max negated.length result.length
  [⟨"Apply negative sign", .negation,
    { rows := [Row.padStart width negated.toList, Row.padStart width result.toList] },
    s!"The negative of {text} is {result}."⟩]

/-- The rows of a page, brought to one width at the left. -/
def rightAligned (rows : List String) : Layout :=
  let rows := rows.map String.toList
  { rows := rows.map (Row.padStart (Row.maxWidth rows)) }

/-- The pages of a percentage, with the result as text (`_percentage_steps`). -/
def percentageDrafts (precision : Nat) (left right : Decimal) (result : String) : List Draft :=
  let number := String.ofList left.plain
  let percent := String.ofList right.plain
  let rate := String.ofList (rate precision right).plain
  [⟨"Convert percentage to decimal", .percentage,
    rightAligned [s!"{number} × {percent}%", s!"{number} × {rate}", result],
    s!"Convert {percent}% to decimal: {percent}% = {rate}"⟩,
   ⟨"Multiply", .percentage, rightAligned [s!"{number} × {rate}", result],
    s!"{number} × {rate} = {result}"⟩]

/-- The pages of a problem. -/
def drafts (p : Problem) : List Draft :=
  let answer := plain p.result
  match p with
  | .negation value => negationDrafts value.exact answer
  | .binary op left right =>
    match op with
    | .addition =>
      Column.drafts .addition ⟨left.exact.numeral, right.exact.numeral⟩ none answer
    | .subtraction =>
      if left.exact.lt right.exact then
        Column.drafts .subtraction ⟨right.exact.numeral, left.exact.numeral⟩
          (some (plain left.number.simplest, plain right.number.simplest)) answer
      else Column.drafts .subtraction ⟨left.exact.numeral, right.exact.numeral⟩ none answer
    | .multiplication =>
      Multiplication.drafts p.precision left.exact.numeral right.exact.numeral
    | .division => (Division.Work.of left.exact right.exact).drafts answer
    | .percentage => percentageDrafts p.precision left.exact right.exact answer

/-- The steps of a problem: what `generate_steps` gives once the operands have passed their checks.
-/
def steps (p : Problem) : List Step :=
  Step.ofDrafts p.operation p.operands p.result p.drafts

end Longhand.Problem
