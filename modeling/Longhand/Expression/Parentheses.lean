import Longhand.Expression.Fault
/-!
# Parentheses in a text

Whether the parentheses of a text are balanced, told before anything else about it is known.
-/

namespace Longhand.Expression

/-- Balance of the parentheses after `depth` open ones. -/
def checkDepth : Nat → List Char → Except ExpressionFault Unit
  | 0, [] => .ok ()
  | depth + 1, [] => .error (.unclosed (depth + 1))
  | depth, c :: rest =>
    if c = '(' then checkDepth (depth + 1) rest
    else if c = ')' then
      match depth with
      | 0 => .error .mismatched
      | depth + 1 => checkDepth depth rest
    else checkDepth depth rest

/-- Each parenthesis closes one opened before it, and none stays open (`check_parentheses`). -/
def checkParentheses (s : List Char) : Except ExpressionFault Unit :=
  checkDepth 0 s

end Longhand.Expression
