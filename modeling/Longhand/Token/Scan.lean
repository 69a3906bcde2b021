import Longhand.Expression.Fault
import Longhand.Text.Blank
import Longhand.Token
/-!
# Scanning an expression

The tokens of a text from left to right. A number takes every digit and point that follows its first
digit, so a numeral with two points is one token, which is refused when it is read. A minus is a
sign at the start, after an operator and after an opening parenthesis; right after another sign it
is an operator.
-/

namespace Longhand.Token

def isDigit (c : Char) : Bool :=
  '0' ≤ c && c ≤ '9'

/-- A character that continues a number. -/
def isNumeric (c : Char) : Bool :=
  isDigit c || c = '.'

def isParenthesis (c : Char) : Bool :=
  c = '(' || c = ')'

/-- The tokens of a text that starts at `position` (`tokenize`); `operand` tells whether an operand
is due there, so that a minus is a sign. -/
def scan (operand : Bool) (position : Nat) : List Char → Except ExpressionFault (List Token)
  | [] => .ok []
  | c :: rest =>
    if Text.isBlank c then scan operand (position + 1) rest
    else if isDigit c then
      let run := c :: rest.takeWhile isNumeric
      (⟨.number, String.ofList run, position⟩ :: ·) <$>
        scan false (position + run.length) (rest.dropWhile isNumeric)
    else if c = '-' ∧ operand then
      (⟨.unaryMinus, "-", position⟩ :: ·) <$> scan false (position + 1) rest
    else if (Operator.ofChar? c).isSome then
      (⟨.operator, String.singleton c, position⟩ :: ·) <$> scan true (position + 1) rest
    else if isParenthesis c then
      (⟨.parenthesis, String.singleton c, position⟩ :: ·) <$> scan (c = '(') (position + 1) rest
    else .error (.invalidCharacter c position)
termination_by s => s.length
decreasing_by
  all_goals simp only [List.length_cons]
  all_goals have := (List.dropWhile_suffix isNumeric (l := rest)).length_le
  all_goals omega

/-- The tokens of a text. -/
def ofText (s : List Char) : Except ExpressionFault (List Token) :=
  scan true 0 s

end Longhand.Token
