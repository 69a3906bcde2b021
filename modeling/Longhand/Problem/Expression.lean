import Longhand.Expression.Parse
import Longhand.Problem.Steps
/-!
# The problem in an expression

Of a parsed expression the operator that comes first in the text is worked, if it stands between two
numerals. An expression without operators is a numeral, or a numeral to be negated.
-/

namespace Longhand

/-- What an expression asks to be worked. -/
inductive ExpressionTask where
  | problem (p : Problem)
  /-- A lone numeral with its value. -/
  | numeral (x : Float)
deriving DecidableEq, Repr

namespace ParseResult

def tokenValue (t : Token) : Except StepError Float :=
  match Double.read? t.value.toList with
  | some x => .ok x
  | none => .error (.notNumeral t.value)

/-- The token before the first operator, if any, the operator, and the tokens after it. -/
def splitAtOperator : Option Token → List Token → Option (Option Token × Token × List Token)
  | _, [] => none
  | before, t :: rest =>
    if t.kind = .operator then some (before, t, rest) else splitAtOperator (some t) rest

def number? (t : Option Token) : Option Token :=
  t.filter (·.kind = .number)

/-- What tokens ask to be worked: the choice that `StepGenerator.for_expression` makes. -/
def taskOfTokens (ts : List Token) : Except StepError ExpressionTask :=
  match splitAtOperator none ts with
  | some (before, op, after) =>
    match number? before, number? after.head? with
    | some left, some right => do
      let left ← tokenValue left
      let right ← tokenValue right
      .problem <$> Problem.ofTask (.written op.value) (.number (.float left))
        (some (.number (.float right)))
    | _, _ => .error (.fault .unsuitable)
  | none =>
    match ts.find? (·.kind = .number) with
    | none => .error (.fault .unsuitable)
    | some t => do
      let x ← tokenValue t
      if ts.any (·.kind = .unaryMinus) then
        .problem <$> Problem.ofTask (.written "-") (.number (.float x)) none
      else .ok (.numeral x)

def task : ParseResult → Except StepError ExpressionTask
  | .valid ts _ => taskOfTokens ts
  | .invalid _ message _ => .error (.fault (.unparsed message))

end ParseResult

namespace ExpressionTask

/-- The single step that shows a number (`_single_number`). -/
def numeralSteps (x : Float) : Except ArithmeticError (List Step) := do
  let value := Double.exact x
  let result ← Number.ofValue value
  let text := String.ofList value.plain
  .ok (Step.ofDrafts (.binary .addition) ⟨(Number.float x).simplest, none⟩ result
    [⟨"Single number", .column, { rows := [value.plain] }, s!"The number is {text}."⟩])

def steps : ExpressionTask → Except ArithmeticError (List Step)
  | .problem p => .ok p.steps
  | .numeral x => numeralSteps x

end ExpressionTask

end Longhand
