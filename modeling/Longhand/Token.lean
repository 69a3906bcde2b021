import Longhand.Operator
/-!
# Tokens

The parts of an expression, with the characters they are written with and the place of the first.
-/

namespace Longhand

/-- What a token is. A minus before an operand is told apart from one between two operands. -/
inductive TokenKind where
  | number
  | operator
  | parenthesis
  | unaryMinus
deriving DecidableEq, Repr, Inhabited

namespace TokenKind

def name : TokenKind → String
  | .number => "NUMBER"
  | .operator => "OPERATOR"
  | .parenthesis => "PARENTHESIS"
  | .unaryMinus => "UNARY_MINUS"

def all : List TokenKind :=
  [.number, .operator, .parenthesis, .unaryMinus]

def ofName? (s : String) : Option TokenKind :=
  all.find? (·.name = s)

end TokenKind

/-- A part of an expression. Positions count characters from zero. -/
structure Token where
  kind : TokenKind
  value : String
  position : Nat
deriving DecidableEq, Repr, Inhabited

namespace Token

def operation? (t : Token) : Option Operation :=
  match t.kind with
  | .operator => (Operator.ofSymbol? t.value).map .binary
  | .unaryMinus => some .negation
  | _ => none

end Token

end Longhand
