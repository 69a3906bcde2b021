import Longhand.Operator
import Longhand.Text.Blank
import Longhand.Text.DecimalDigit
/-!
# Finding an expression in a text

Prose, equations and column layouts hold expressions. Three forms are looked for, one after the
other in the whole text: `a op b = c`, then `a op b`, then a group in parentheses with a number or
another group. Of each form the one that starts leftmost is taken. The first two come back as
`a op b` with single spaces, the third as it stands in the text.

A numeral is digits of any script and, if a point and a digit follow, the point and the digits after
it. The operators are those of expressions, except percentages.
-/

namespace Longhand.Expression

open Text

/-- A text split after the numeral it starts with. -/
def takeNumeral? (s : List Char) : Option (List Char × List Char) :=
  let whole := s.takeWhile isDecimalDigit
  let rest := s.dropWhile isDecimalDigit
  if whole.isEmpty then none
  else
    match rest with
    | '.' :: c :: more =>
      if isDecimalDigit c then
        let fraction := (c :: more).takeWhile isDecimalDigit
        some (whole ++ '.' :: fraction, (c :: more).dropWhile isDecimalDigit)
      else some (whole, rest)
    | _ => some (whole, rest)

/-- An operator that may stand in an expression to be found. -/
def isExtractable (c : Char) : Bool :=
  match Operator.ofChar? c with
  | some op => op ≠ .percentage
  | none => false

def skipBlanks (s : List Char) : List Char :=
  s.dropWhile isBlank

/-- A text split after the operator it starts with, blanks before and after not counted. -/
def takeOperator? (s : List Char) : Option (Char × List Char) :=
  match skipBlanks s with
  | c :: rest => if isExtractable c then some (c, skipBlanks rest) else none
  | [] => none

/-- Two numerals with an operator between them. -/
structure SimpleExpression where
  left : List Char
  symbol : Char
  right : List Char
deriving DecidableEq, Repr

/-- The expression `a op b` at the start of a text, and the rest. -/
def takeSimple? (s : List Char) : Option (SimpleExpression × List Char) := do
  let (left, rest) ← takeNumeral? s
  let (symbol, rest) ← takeOperator? rest
  let (right, rest) ← takeNumeral? rest
  some (⟨left, symbol, right⟩, rest)

def equalsNumber (s : List Char) : Bool :=
  match skipBlanks s with
  | '=' :: rest => ((skipBlanks rest).head?.map isDecimalDigit).getD false
  | _ => false

/-- The expression `a op b` of an equation `a op b = c` at the start of a text. -/
def takeEquation? (s : List Char) : Option SimpleExpression :=
  match takeSimple? s with
  | some (e, rest) => if equalsNumber rest then some e else none
  | none => none

/-- A text split after the group it starts with: an opening parenthesis, at least one other
character, and the first closing parenthesis. -/
def takeGroup? : List Char → Option (List Char × List Char)
  | '(' :: rest =>
    match rest.takeWhile (· ≠ ')'), rest.dropWhile (· ≠ ')') with
    | c :: inner, ')' :: after => some ('(' :: c :: inner ++ [')'], after)
    | _, _ => none
  | _ => none

def takeOperand? (s : List Char) : Option (List Char × List Char) :=
  let whole := s.takeWhile isDecimalDigit
  if whole.isEmpty then takeGroup? s else some (whole, s.dropWhile isDecimalDigit)

/-- A group, an operator and digits or a group at the start of a text, as they stand there. -/
def takeGrouped? (s : List Char) : Option (List Char) := do
  let (_, rest) ← takeGroup? s
  let (_, rest) ← takeOperator? rest
  let (_, rest) ← takeOperand? rest
  some (s.take (s.length - rest.length))

/-- The first of the values that `f` finds at the places of a text, from left to right. -/
def leftmost? (f : List Char → Option α) : List Char → Option α
  | [] => f []
  | c :: rest =>
    match f (c :: rest) with
    | some a => some a
    | none => leftmost? f rest

/-- The text of an expression, with single spaces. -/
def SimpleExpression.text (e : SimpleExpression) : List Char :=
  e.left ++ [' ', e.symbol, ' '] ++ e.right

/-- The expression found in a text (`extract_expression_from_text`). -/
def extract? (s : List Char) : Option (List Char) :=
  match leftmost? takeEquation? s with
  | some e => some e.text
  | none =>
    match leftmost? takeSimple? s with
    | some (e, _) => some e.text
    | none => leftmost? takeGrouped? s

end Longhand.Expression
