import Longhand.Expression.Parentheses
import Longhand.Number.Rounding
import Longhand.PostOrder
import Longhand.Token.Scan
/-!
# Parsing an expression

`Expression.evaluate` takes a text through every stage — length, parentheses, tokens, post-order,
value, range — and stops at the first fault. `parse` turns its outcome into a parse result, which
holds either the tokens and the rounded value or a message and a code.
-/

namespace Longhand

/-- The outcome of parsing an expression (`ParsedExpression`). -/
inductive ParseResult where
  | valid (tokens : List Token) (result : Number)
  | invalid (tokens : List Token) (message : String) (code : Option String)
deriving DecidableEq, Repr, Inhabited

namespace ParseResult

def ofFault (f : ExpressionFault) : ParseResult :=
  .invalid [] f.message (some f.code)

def tokens : ParseResult → List Token
  | .valid ts _ => ts
  | .invalid ts _ _ => ts

/-- The value of the expression, or else the message. -/
def answer : ParseResult → Number ⊕ String
  | .valid _ result => .inl result
  | .invalid _ message _ => .inr message

end ParseResult

/-- The longest expression accepted and the decimal places of a result. -/
structure ParseLimits where
  maxLength : Int := 200
  places : Int := 2
deriving DecidableEq, Repr, Inhabited

namespace Expression

/-- The text with one sign for division (`normalize_expression`). -/
def normalize (s : List Char) : List Char :=
  s.map fun c => if c = '÷' then '/' else c

/-- The value of a text, as it stands: parentheses, tokens, post-order, value. -/
def evaluateTokens (ts : List Token) : Except ExpressionFault Float := do
  PostOrder.value (← PostOrder.ofTokens ts)

/-- The length of a text without the blanks around it is within the limit. -/
def checkLength (maxLength : Int) (s : List Char) : Except ExpressionFault Unit :=
  if s.all Text.isBlank then .error .empty
  else if maxLength < (Text.trim s).length then .error (.tooLong maxLength)
  else .ok ()

def checkRange (x : Float) : Except ExpressionFault Unit :=
  if x.isFinite then .ok () else .error .outOfRange

/-- The tokens and the value of an expression. -/
def evaluate (maxLength : Int) (s : List Char) : Except ExpressionFault (List Token × Float) := do
  let s := normalize s
  checkLength maxLength s
  checkParentheses s
  let ts ← Token.ofText s
  let x ← evaluateTokens ts
  checkRange x
  .ok (ts, x)

/-- The parse result of a text. A fault in the text is part of the result. There is none if the limit on
the length is to be told and has too many digits, or if the value is to be rounded to a number of
places beyond all bounds. -/
def parse (limits : ParseLimits) (s : List Char) : Except ArithmeticError ParseResult :=
  match evaluate limits.maxLength s with
  | .error f => if f.isTold then .ok (.ofFault f) else .error .unwritableInteger
  | .ok (ts, x) => .valid ts <$> (Double.exact x).roundHalfUp limits.places

/-- The value of a text as it is: parentheses, tokens, post-order, without limits. -/
def check (s : List Char) : Except ExpressionFault Float := do
  checkParentheses s
  evaluateTokens (← Token.ofText s)

end Expression

end Longhand
