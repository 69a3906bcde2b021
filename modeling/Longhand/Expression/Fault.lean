import Longhand.Json.Basic
/-!
# Faults in an expression

Everything that can be wrong with the text of an expression or with its value, the message that
says so, and the code by which a program can tell the faults apart.
-/

namespace Longhand

/-- What is wrong with an expression: each kind of `ExpressionError`. -/
inductive ExpressionFault where
  | empty
  | tooLong (limit : Int)
  /-- A parenthesis closes what was not opened. -/
  | mismatched
  /-- So many parentheses stay open. -/
  | unclosed (depth : Nat)
  | invalidCharacter (c : Char) (position : Nat)
  | invalidNumber (numeral : String) (position : Nat)
  /-- An operator lacks an operand. -/
  | insufficientOperands (position : Nat)
  /-- A parenthesis stands where only operands and operators may. -/
  | strayParenthesis (position : Nat)
  /-- No single value remains. -/
  | incomplete
  | unknownOperator (symbol : String)
  | divisionByZero
  /-- The value is no finite number. -/
  | outOfRange
deriving DecidableEq, Repr

namespace ExpressionFault

/-- The message for the reader. -/
def message : ExpressionFault → String
  | .empty => "Empty expression"
  | .tooLong limit => "Expression exceeds " ++ String.ofList (intText limit) ++ " characters."
  | .mismatched => "Mismatched parentheses"
  | .unclosed _ => "Unclosed parentheses"
  | .invalidCharacter c position =>
    "Invalid character '" ++ String.singleton c ++ "' at position " ++
      String.ofList (intText position)
  | .invalidNumber numeral _ => "Invalid number '" ++ numeral ++ "'"
  | .insufficientOperands _ => "Invalid expression: insufficient operands"
  | .strayParenthesis _ => "Invalid expression"
  | .incomplete => "Invalid expression"
  | .unknownOperator symbol => "Unknown operator '" ++ symbol ++ "'"
  | .divisionByZero => "Division by zero"
  | .outOfRange => "Result is out of range"

/-- Whether the message can be written: the limit on the length, which alone may be of any size, has
not too many digits. -/
def isTold : ExpressionFault → Bool
  | .tooLong limit => (Digits.ofNat limit.natAbs).length ≤ Digits.maxLength
  | _ => true

/-- The code for programs. -/
def code : ExpressionFault → String
  | .empty => "EMPTY_EXPRESSION"
  | .tooLong _ => "EXPRESSION_TOO_LONG"
  | .mismatched => "MISMATCHED_PARENTHESES"
  | .unclosed _ => "UNCLOSED_PARENTHESES"
  | .invalidCharacter _ _ => "INVALID_CHARACTER"
  | .invalidNumber _ _ | .insufficientOperands _ | .strayParenthesis _ | .incomplete
  | .outOfRange => "INVALID_EXPRESSION_FORMAT"
  | .unknownOperator _ => "EXPRESSION_ERROR"
  | .divisionByZero => "DIVISION_BY_ZERO"

def details : ExpressionFault → List (String × Json)
  | .tooLong limit => [("limit", .int limit)]
  | .unclosed depth => [("open", .nat depth)]
  | .invalidCharacter c position =>
    [("character", .text (String.singleton c)), ("position", .nat position)]
  | .invalidNumber _ position | .insufficientOperands position | .strayParenthesis position =>
    [("position", .nat position)]
  | _ => []

end ExpressionFault

end Longhand
