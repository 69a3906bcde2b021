import Longhand.Decimal.Rounding
import Longhand.Multiplication.Digits
import Longhand.Numeral
import Longhand.Place
import Longhand.Step.Basic
/-!
# Long multiplication

The pages of a long multiplication: the factors, one page for each digit of the multiplier with its
partial product, and the sum of the partial products with the point put in. Zeros of the multiplier,
leading ones too, have partial products like any other digit.
-/

namespace Longhand.Multiplication

/-- The partial product of one digit of the multiplier: the product, and the product with the zeros
that its place asks for. -/
structure Partial where
  digit : Digit
  product : List Digit
  shifted : List Digit
  carries : List (Nat × Int)
deriving DecidableEq, Repr, Inhabited

/-- The partial product of a digit that stands `shift` places before the end of the multiplier. -/
def partialProduct (multiplicand : List Digit) (shift : Nat) (digit : Digit) : Partial :=
  let p := Digits.times multiplicand digit.val
  let product := p.digits
  { digit, product
    shifted := if Digits.value product = 0 then product else product ++ Digits.zeros shift
    carries := p.carries }

/-- The partial products, for the last digit of the multiplier first. -/
def partials (left right : Numeral) : List Partial :=
  right.scaled.reverse.mapIdx (partialProduct left.scaled)

def total (ps : List Partial) : List Digit :=
  Digits.sum (ps.map (·.shifted))

/-- The number of digits after the points of both factors. -/
def scale (left right : Numeral) : Nat :=
  left.fraction.length + right.fraction.length

/-- The product with its point, in a precision. -/
def productText (precision : Nat) (left right : Numeral) : List Char :=
  let scaled := Decimal.ofScaled (Digits.value (total (partials left right))) 0
  ((scaled.shift (-scale left right)).roundTo precision).plain

def pageWidth (precision : Nat) (left right : Numeral) : Nat :=
  let ps := partials left right
  1 + Row.maxWidth ([left.text, right.text, Digits.text (total ps),
    productText precision left right] ++ ps.map (Digits.text ·.shifted))

/-- The name of the place of the digit that stands `shift` places before the end of the
multiplier. -/
def multiplierPlace (right : Numeral) (shift : Nat) : String :=
  if shift < right.fraction.length then Place.fraction (right.fraction.length - 1 - shift)
  else Place.integer (shift - right.fraction.length)

def digitText (d : Digit) : String :=
  String.singleton d.char

def digitsText (ds : List Digit) : String :=
  String.ofList (Digits.text ds)

def header (width : Nat) (left right : Numeral) : List Row :=
  [Row.padStart width left.text, '×' :: Row.padStart (width - 1) right.text,
    List.replicate width '-']

/-- The highlights of a partial product: the digit of the multiplier that it belongs to, and its own
digits. -/
def highlights (width : Nat) (left right : Numeral) (shift : Nat) (p : Partial) :
    List Highlight :=
  let columns := Row.digitColumns ('×' :: Row.padStart (width - 1) right.text)
  let filled := Row.digitColumns (Row.padStart width (Digits.text p.shifted))
  let factor := String.ofList left.text
  let digit := digitText p.digit
  let product := digitsText p.product
  ⟨1, columns.getD (columns.length - 1 - shift) 0, sourceColor, s!"Multiply by {digit}"⟩ ::
    filled.map fun column =>
      ⟨3 + shift, column, targetColor,
        if some column = filled.getLast? then s!"{factor} × {digit} = {product}" else ""⟩

/-- The carries of a partial product, above the digits of the multiplicand. -/
def carryMarks (width : Nat) (left : Numeral) (p : Partial) : List Transfer :=
  let columns := Row.digitColumns (Row.padStart width left.text)
  let digit := digitText p.digit
  p.carries.map fun (index, value) =>
    let here := (left.scaled[index]?.map digitText).getD ""
    let carried := String.ofList (intText value)
    { fromColumn := columns.getD index 0
      toColumn := if index = 0 then columns.getD 0 0 - 1 else columns.getD (index - 1) 0
      value
      description := s!"{here} × {digit} carries {carried} to the next column" }

/-- The page on which a partial product has just been written below those before it. -/
def partialDraft (width : Nat) (left right : Numeral) (rows : List Row) (shift : Nat)
    (p : Partial) : Draft :=
  let factor := String.ofList left.text
  let digit := digitText p.digit
  let product := digitsText p.product
  let shifted := digitsText p.shifted
  let place := multiplierPlace right shift
  let zeros := plural shift "zero"
  let note := s!" The {digit} is in the {place} place, so write the product followed by " ++
    s!"{zeros}: {shifted}."
  { description := s!"Multiply {factor} by the {place} digit {digit}"
    picture := .grid
    layout :=
      { rows := header width left right ++ rows.take (shift + 1)
        highlights := some (highlights width left right shift p)
        carries := some (carryMarks width left p) }
    explanation := s!"{factor} × {digit} = {product}." ++
      if shift ≠ 0 ∧ Digits.value p.product ≠ 0 then note else "" }

def totalExplanation (precision : Nat) (left right : Numeral) : String :=
  let ps := partials left right
  let result := String.ofList (productText precision left right)
  let first := String.ofList left.text
  let second := String.ofList right.text
  let summands := " + ".intercalate (ps.map fun p => digitsText p.shifted)
  let sum := digitsText (total ps)
  let worked :=
    if ps.length = 1 then s!"{first} × {second} = {result}."
    else s!"Add the partial products: {summands} = {sum}."
  let places := plural (scale left right) "decimal place"
  worked ++
    if scale left right = 0 then ""
    else s!" The two numbers have {places} between them, so the product is {result}."

/-- The pages of a long multiplication in a precision (`_multiplication_steps`). -/
def drafts (precision : Nat) (left right : Numeral) : List Draft :=
  let width := pageWidth precision left right
  let ps := partials left right
  let rows := ps.map fun p => Row.padStart width (Digits.text p.shifted)
  let top := header width left right
  ⟨"Align the numbers vertically", .column, { rows := top },
    "Write the numbers one above the other, lining up the ones digits."⟩ ::
  ps.mapIdx (partialDraft width left right rows) ++
  [⟨"Add the partial products", .grid,
    { rows := top ++ rows ++
        [List.replicate width '-', Row.padStart width (productText precision left right)] },
    totalExplanation precision left right⟩]

end Longhand.Multiplication
