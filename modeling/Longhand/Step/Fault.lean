import Longhand.ArithmeticError
import Longhand.Json.Basic
import Longhand.Operator
/-!
# Faults in a task

Why a calculation has no written steps: its operation or its operands are not ones that can be
worked on paper.
-/

namespace Longhand

/-- What is wrong with a calculation to be worked on paper: each way to a `StepGenerationError`. -/
inductive StepFault where
  | unsupported (symbol : String)
  /-- Negation was given two operands. -/
  | tooManyOperands
  | missingOperand (op : Operator)
  /-- An operand is no number; it is shown as it was given. -/
  | notNumber (shown : String)
  | notFinite
  | negativeOperand (op : Operator) (left right : Number)
  | zeroDivisor
  /-- The expression could not be parsed, for the reason given. -/
  | unparsed (message : String)
  /-- The expression has no operation between two numerals and is no lone numeral. -/
  | unsuitable
deriving DecidableEq, Repr

namespace StepFault

def message : StepFault → String
  | .unsupported symbol => "Unsupported operation: " ++ symbol
  | .tooManyOperands => "Negation takes a single operand."
  | .missingOperand op => op.title ++ " needs a right operand."
  | .notNumber shown => "Operands must be numbers, got " ++ shown ++ "."
  | .notFinite => "Operands must be finite numbers."
  | .negativeOperand op _ _ => op.title ++ " steps need non-negative operands."
  | .zeroDivisor => "Division by zero"
  | .unparsed message => message
  | .unsuitable => "Invalid expression format"

def details : StepFault → List (String × Json)
  | .unsupported symbol => [("operation", .text symbol)]
  | .missingOperand op => [("operation", .text op.name)]
  | .negativeOperand _ left right => [("left", .number left), ("right", .number right)]
  | _ => []

def code : String := "STEP_GENERATION_ERROR"

end StepFault

/-- Why there are no steps. Besides the faults of a task there are numbers that are too large or
infinite, and tokens that are no numerals. -/
inductive StepError where
  | fault (f : StepFault)
  | arithmetic (e : ArithmeticError)
  | notNumeral (text : String)
deriving DecidableEq, Repr

end Longhand
