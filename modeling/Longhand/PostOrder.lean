import Longhand.Expression.Fault
import Longhand.Token
import Longhand.Double.Text
/-!
# Post-order

Tokens in post-order have each operator after its operands, and need no parentheses. `ofTokens`
brings the tokens of an expression into post-order with a stack of operators that wait for their
right operand, and `value` evaluates them with a stack of operands.
-/

namespace Longhand.PostOrder

/-- An opening parenthesis, told by its character alone. -/
def opens (t : Token) : Bool :=
  t.value = "("

/-- Whether a waiting token takes its right operand before an operator with a precedence does. -/
def bindsFirst (precedence : Nat) (waiting : Token) : Bool :=
  match waiting.operation? with
  | some op => precedence ≤ op.precedence
  | none => false

/-- The post-order of the tokens after those that wait on the stack. -/
def convert : List Token → List Token → Except ExpressionFault (List Token)
  | stack, [] =>
    if stack.any (·.kind = .parenthesis) then .error .mismatched else .ok stack
  | stack, t :: rest =>
    match t.kind with
    | .number => (t :: ·) <$> convert stack rest
    | .unaryMinus => convert (t :: stack) rest
    | .operator =>
      match Operator.ofSymbol? t.value with
      | none => .error (.unknownOperator t.value)
      | some op =>
        (stack.takeWhile (bindsFirst op.precedence) ++ ·) <$>
          convert (t :: stack.dropWhile (bindsFirst op.precedence)) rest
    | .parenthesis =>
      if opens t then convert (t :: stack) rest
      else
        match stack.dropWhile (!opens ·) with
        | [] => .error .mismatched
        | _ :: below => (stack.takeWhile (!opens ·) ++ ·) <$> convert below rest

/-- The tokens of an expression in post-order (`infix_to_postfix`). -/
def ofTokens (ts : List Token) : Except ExpressionFault (List Token) :=
  convert [] ts

def combine (op : Operator) (left right : Float) : Except ExpressionFault Float :=
  match op with
  | .addition => .ok (left + right)
  | .subtraction => .ok (left - right)
  | .multiplication => .ok (left * right)
  | .division => if right == 0 then .error .divisionByZero else .ok (left / right)
  | .percentage => .ok (left * (right / 100))

/-- The operands after a token. -/
def push (operands : List Float) (t : Token) : Except ExpressionFault (List Float) :=
  match t.kind, operands with
  | .number, operands =>
    match Double.read? t.value.toList with
    | some x => .ok (x :: operands)
    | none => .error (.invalidNumber t.value t.position)
  | .unaryMinus, x :: operands => .ok (-x :: operands)
  | .operator, right :: left :: operands =>
    match Operator.ofSymbol? t.value with
    | some op => (· :: operands) <$> combine op left right
    | none => .error (.unknownOperator t.value)
  | .parenthesis, _ => .error (.strayParenthesis t.position)
  | _, _ => .error (.insufficientOperands t.position)

/-- The value of tokens in post-order (`evaluate_postfix`). -/
def value (ts : List Token) : Except ExpressionFault Float := do
  match ← ts.foldlM push [] with
  | [x] => .ok x
  | _ => .error .incomplete

end Longhand.PostOrder
