import Longhand.Division.Digits
import Longhand.Number.Basic
import Longhand.Place
import Longhand.Step.Basic
/-!
# Long division

The pages of a long division: the bracket, the division made one by a whole number, one page for
each digit of the quotient that is not zero, and the answer rounded to two places. What remains is
stated with the value it has in the given numbers.
-/

namespace Longhand.Division

/-- A long division laid out: the whole divisor, the dividend with its point moved along, and the
digits brought down after the point. -/
structure Work where
  dividend : Decimal
  divisor : Decimal
  /-- The places by which both points are moved. -/
  shift : Nat
  whole : Nat
  moved : Numeral
  fraction : List Digit
deriving DecidableEq, Repr, Inhabited

namespace Work

/-- The layout of the division of a number by one that is not zero. -/
def of (dividend divisor : Decimal) : Work :=
  let d := divisor.numeral
  let shift := d.fraction.length
  let whole := Digits.value d.scaled
  let moved := dividend.numeral.shiftPoint shift
  { dividend, divisor, shift, whole, moved, fraction := broughtDown moved whole }

def lines (w : Work) : List Line :=
  trace w.whole 0 0 (w.moved.integer ++ w.fraction)

/-- The digits after the point in the bracket, zeros at the end included. -/
def shownPlaces (w : Work) : Nat :=
  if w.fraction.isEmpty then 0 else max w.fraction.length places

def divisorText (w : Work) : List Char :=
  Digits.text (Digits.ofNat w.whole)

/-- The column of the first digit of the dividend. -/
def offset (w : Work) : Nat :=
  w.divisorText.length + 1

/-- The divisor, the bracket and the dividend. -/
def bracket (w : Work) : Row :=
  w.divisorText ++ ')' :: Digits.text w.moved.integer ++
    if w.fraction.isEmpty then []
    else '.' :: Digits.text (w.fraction ++ Digits.zeros (w.shownPlaces - w.fraction.length))

def quotientRow (w : Work) (quotient : List Char) : Row :=
  Division.quotientRow quotient w.moved.integer.length w.offset

def quotientChars (ls : List Line) : List Char :=
  ls.map fun l => Nat.digitChar l.quotient

/-- The column of the dividend digit with an index. -/
def column (w : Work) (index : Nat) : Nat :=
  w.offset + index + if w.moved.integer.length ≤ index then 1 else 0

/-- The page on which a line has just been worked. -/
def lineDraft (w : Work) (l : Line) : Draft :=
  let column := w.column l.index
  let divisor := String.ofList w.divisorText
  let current := count l.current
  let brought := String.singleton l.brought.char
  let quotient := count l.quotient
  let remainder := count l.remainder
  let product := Digits.text (Digits.ofNat (l.quotient * w.whole))
  { description :=
      if w.moved.integer.length ≤ l.index then
        s!"Bring down {brought} and divide {current} by {divisor}"
      else s!"Divide {current} by {divisor}"
    picture := .longDivision
    layout :=
      { rows := [w.quotientRow (quotientChars (w.lines.take (l.index + 1))), w.bracket,
          Row.padStart (column + 1) current.toList,
          Row.padStart (column + 1) ('-' :: product),
          Row.padStart (column + 1) remainder.toList]
        highlights := some [⟨0, column, targetColor, s!"Write {quotient}"⟩,
          ⟨1, column, sourceColor, s!"Bring down {brought}"⟩] }
    explanation := s!"{current} ÷ {divisor} = {quotient} remainder {remainder}." }

def remainder (w : Work) : Nat :=
  (w.lines.getLast?.map (·.remainder)).getD 0

def quotient (w : Work) : Decimal :=
  ⟨false, w.lines.foldl (fun n l => 10 * n + l.quotient) 0, -w.fraction.length⟩

/-- What remains, in the place of the last digit brought down. -/
def leftOver (w : Work) : Decimal :=
  ⟨false, w.remainder, -(w.fraction.length + w.shift : Nat)⟩

/-- What is said on the last page, with the answer as text. -/
def finalExplanation (w : Work) (answer : String) : String :=
  let left := String.ofList w.dividend.plain
  let right := String.ofList w.divisor.plain
  let quotient := String.ofList w.quotient.plain
  let leftOver := String.ofList w.leftOver.plain
  let note := if w.remainder = 0 then "" else s!" with remainder {leftOver}"
  let rounding := plural places "decimal place"
  if w.remainder ≠ 0 ∨ places < w.fraction.length then
    s!"{left} ÷ {right} = {quotient}{note}. Rounded to {rounding}, the final answer is {answer}."
  else s!"The final answer is {answer}."

/-- The pages of a long division, with the answer as text (`_division_steps`). -/
def drafts (w : Work) (answer : String) : List Draft :=
  let left := String.ofList w.dividend.plain
  let right := String.ofList w.divisor.plain
  let moved := String.ofList w.moved.text
  let whole := String.ofList w.divisorText
  let distance := plural w.shift "place"
  let setUp : Draft := ⟨"Set up long division", .longDivision,
    { rows := [w.divisor.plain ++ ')' :: w.dividend.plain] },
    s!"We need to divide {left} by {right}."⟩
  let makeWhole : Draft := ⟨"Make the divisor a whole number", .longDivision,
    { rows := [w.divisorText ++ ')' :: w.moved.text] },
    s!"Move both decimal points {distance} to the right: " ++
      s!"{left} ÷ {right} becomes {moved} ÷ {whole}."⟩
  let shown := w.lines.filter fun l => w.whole ≤ l.current
  let padding := List.replicate (w.shownPlaces - w.fraction.length) '0'
  let final : Draft := ⟨"Final answer", .longDivision,
    { rows := [w.quotientRow (quotientChars w.lines ++ padding), w.bracket] },
    w.finalExplanation answer⟩
  setUp :: (if w.shift = 0 then [] else [makeWhole]) ++ shown.map w.lineDraft ++ [final]

end Work

end Longhand.Division
