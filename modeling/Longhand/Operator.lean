/-!
# Operators

The five binary operators, the seven symbols they are written with, and how tightly each binds.
Negation is written before its operand and binds more tightly than all of them.
-/

namespace Longhand

/-- A binary operator. `percentage` takes the right operand as a percentage of the left one. -/
inductive Operator where
  | addition
  | subtraction
  | multiplication
  | division
  | percentage
deriving DecidableEq, Repr, Inhabited

inductive Operation where
  | binary (op : Operator)
  | negation
deriving DecidableEq, Repr, Inhabited

namespace Operator

def ofChar? : Char → Option Operator
  | '+' => some .addition
  | '-' => some .subtraction
  | '×' => some .multiplication
  | '*' => some .multiplication
  | '÷' => some .division
  | '/' => some .division
  | '%' => some .percentage
  | _ => none

def ofSymbol? (s : String) : Option Operator :=
  match s.toList with
  | [c] => ofChar? c
  | _ => none

/-- How tightly an operator binds. All operators associate to the left. -/
def precedence : Operator → Nat
  | .addition | .subtraction => 1
  | .multiplication | .division => 2
  | .percentage => 3

def name : Operator → String
  | .addition => "addition"
  | .subtraction => "subtraction"
  | .multiplication => "multiplication"
  | .division => "division"
  | .percentage => "percentage"

def title : Operator → String
  | .addition => "Addition"
  | .subtraction => "Subtraction"
  | .multiplication => "Multiplication"
  | .division => "Division"
  | .percentage => "Percentage"

def all : List Operator :=
  [.addition, .subtraction, .multiplication, .division, .percentage]

end Operator

namespace Operation

def precedence : Operation → Nat
  | .binary op => op.precedence
  | .negation => 4

def name : Operation → String
  | .binary op => op.name
  | .negation => "unary"

def all : List Operation :=
  Operator.all.map .binary ++ [.negation]

def ofName? (s : String) : Option Operation :=
  all.find? (·.name = s)

end Operation

end Longhand
