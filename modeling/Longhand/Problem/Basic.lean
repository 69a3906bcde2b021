import Longhand.Number.Rounding
import Longhand.Step.Fault
import Longhand.Text.Quoted
/-!
# Problems

A problem is an operation with operands that can be worked on paper. `Problem.ofTask` makes one from
an operation and operands as they are given, and refuses what has no written method: operations that
are not known, operands that are no finite numbers, negative operands where the method works on
digits, and a zero divisor.
-/

namespace Longhand

/-- An operand as it is given. -/
inductive Operand where
  | number (n : Number)
  | boolean (b : Bool)
  | text (s : String)
  | decimal (v : DecimalValue)
deriving DecidableEq, Repr, Inhabited

/-- An operation as it is given: itself, or its symbol or name. -/
inductive OperationName where
  | operation (op : Operation)
  | written (s : String)
deriving DecidableEq, Repr, Inhabited

/-- A finite number with its exact decimal. -/
structure Term where
  number : Number
  exact : Decimal
  exact_eq : number.exact = .finite exact
deriving DecidableEq, Repr

/-- An operation with its operands. -/
inductive Problem where
  | negation (value : Term)
  | binary (op : Operator) (left right : Term)
deriving DecidableEq, Repr

namespace OperationName

/-- The operation that is meant (`resolve_operation`). A minus without a right operand is a
negation. -/
def resolve (name : OperationName) (hasRight : Bool) : Except StepFault Operation :=
  let op? : Option Operation :=
    match name with
    | .operation op => some op
    | .written s =>
      if s = "-" ∧ !hasRight then some .negation
      else ((Operator.ofSymbol? s).map Operation.binary).or (Operation.ofName? s)
  match op?, name with
  | some .negation, _ => if hasRight then .error .tooManyOperands else .ok .negation
  | some (.binary op), _ => if hasRight then .ok (.binary op) else .error (.missingOperand op)
  | none, .written s => .error (.unsupported s)
  | none, .operation op => .error (.unsupported op.name)

end OperationName

namespace Operand

/-- An operand that is no number, as it is shown. -/
def shown : Operand → String
  | .number n => String.ofList n.text
  | .boolean b => if b then "True" else "False"
  | .text s => Text.quote s
  | .decimal v => "Decimal('" ++ String.ofList v.text ++ "')"

/-- The term of an operand that is a finite number. -/
def term : Operand → Except StepError Term
  | .number n =>
    match n, h : n.exact with
    | .int i, .finite d =>
      if Double.holdsInt i then .ok ⟨n, d, h⟩ else .error (.arithmetic .integerTooLarge)
    | _, .finite d => .ok ⟨n, d, h⟩
    | _, _ => .error (.fault .notFinite)
  | o => .error (.fault (.notNumber o.shown))

end Operand

namespace Problem

def operation : Problem → Operation
  | .negation _ => .negation
  | .binary op _ _ => .binary op

/-- Percentages and negation work on numbers of either sign, the other methods on digits alone
(`_check_operands`). -/
def check : Problem → Except StepFault Unit
  | .negation _ => .ok ()
  | .binary .percentage _ _ => .ok ()
  | .binary op left right =>
    if left.exact.isNegative || right.exact.isNegative then
      .error (.negativeOperand op left.number right.number)
    else if op = .division ∧ right.exact.isZero then .error .zeroDivisor
    else .ok ()

/-- The problem for an operation and operands as they are given. -/
def ofTask (name : OperationName) (left : Operand) (right : Option Operand) :
    Except StepError Problem := do
  let operation ← (name.resolve right.isSome).mapError .fault
  let left ← left.term
  let right ← right.mapM Operand.term
  let problem ←
    match operation, right with
    | .binary op, some right => .ok (.binary op left right)
    | _, _ => .ok (.negation left)
  problem.check.mapError .fault
  .ok problem

/-- The digits with which the calculations of a problem are exact. -/
def precision : Problem → Nat
  | .negation value => precisionOfSpans [value.exact.span]
  | .binary _ left right => precisionOfSpans [left.exact.span, right.exact.span]

end Problem

end Longhand
