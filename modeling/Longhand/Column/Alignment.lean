import Longhand.Numeral
import Longhand.Place
import Longhand.Step.Basic
/-!
# Numerals in columns

Two numerals, one above the other, with their points in one column. Column 0 is left of both; it has
room for the sign of the operation and for a last carry. The digit columns follow it, with one
column for the point between them if either numeral has a fraction. Where a numeral has no digit the
cell stays blank and counts as zero.
-/

namespace Longhand

/-- Two numerals to be worked on column by column (`_ColumnLayout`). -/
structure Alignment where
  top : Numeral
  bottom : Numeral
deriving DecidableEq, Repr, Inhabited

/-- A digit column: where it is, and the digits in it. -/
structure Column where
  index : Nat
  top : Digit
  bottom : Digit
deriving DecidableEq, Repr, Inhabited

namespace Alignment

def integerWidth (a : Alignment) : Nat :=
  max a.top.integer.length a.bottom.integer.length

def fractionWidth (a : Alignment) : Nat :=
  max a.top.fraction.length a.bottom.fraction.length

/-- A numeral in its cells. -/
def row (a : Alignment) (n : Numeral) : Row :=
  let integer := Row.padStart a.integerWidth (Digits.text n.integer)
  if a.fractionWidth = 0 then integer
  else
    integer ++ (if n.fraction.isEmpty then ' ' else '.') ::
      Row.padEnd a.fractionWidth (Digits.text n.fraction)

def pointColumn? (a : Alignment) : Option Nat :=
  if a.fractionWidth = 0 then none else some (a.integerWidth + 1)

def unitsColumn (a : Alignment) : Nat :=
  a.integerWidth

/-- The number of columns, column 0 included. -/
def width (a : Alignment) : Nat :=
  1 + a.integerWidth + if a.fractionWidth = 0 then 0 else 1 + a.fractionWidth

/-- The indices of the digit columns, the most significant first. -/
def columnIndices (a : Alignment) : List Nat :=
  List.range' 1 a.integerWidth ++ List.range' (a.integerWidth + 2) a.fractionWidth

/-- The digits of a numeral in all digit columns, zeros where it has none. -/
def digits (a : Alignment) (n : Numeral) : List Digit :=
  Digits.padStart a.integerWidth n.integer ++
    (n.fraction ++ Digits.zeros (a.fractionWidth - n.fraction.length))

def columns (a : Alignment) : List Column :=
  List.zipWith (fun i d => ⟨i, d.1, d.2⟩) a.columnIndices
    ((a.digits a.top).zip (a.digits a.bottom))

/-- The name of the place of a digit column. -/
def place (a : Alignment) (column : Nat) : String :=
  if column ≤ a.integerWidth then Place.integer (a.integerWidth - column)
  else Place.fraction (column - a.integerWidth - 2)

end Alignment

end Longhand
