import Longhand.Decimal.Value
/-!
# Numerals

The digits of an unsigned number as they stand on paper: an integer part, which has at least one
digit and no needless leading zero, and a fraction, which does not end in a zero. `Decimal.numeral`
gives the numeral of a decimal, and decimals that denote numbers of the same size have the same one.
-/

namespace Longhand

/-- The digits before and after the decimal point (`_Digits`). -/
structure Numeral where
  integer : List Digit
  fraction : List Digit
deriving DecidableEq, Repr, Inhabited

namespace Numeral

def scaled (n : Numeral) : List Digit :=
  n.integer ++ n.fraction

/-- The numeral as text; a point is written only before a fraction. -/
def text (n : Numeral) : List Char :=
  Digits.text n.integer ++
    if n.fraction.isEmpty then [] else '.' :: Digits.text n.fraction

def toDecimal (n : Numeral) : Decimal :=
  ⟨false, Digits.value n.scaled, -n.fraction.length⟩

/-- The first digits of a list, as a cut at `places` gives them; a negative cut counts from the
end. -/
def cut (places : Int) (ds : List Digit) : Nat :=
  if 0 ≤ places then places.toNat else ds.length - places.natAbs

/-- The numeral with its point moved `places` digits to the right (`_shift_point`). -/
def shiftPoint (n : Numeral) (places : Int) : Numeral :=
  let moved := n.fraction.take (cut places n.fraction)
  { integer := Digits.normalize (n.integer ++ moved ++ Digits.zeros (places.toNat - moved.length))
    fraction := n.fraction.drop (cut places n.fraction) }

end Numeral

namespace Decimal

/-- The numeral of a decimal's size. -/
def numeral (d : Decimal) : Numeral :=
  if 0 ≤ d.exponent then
    ⟨Digits.ofNat (d.coefficient * pow10 d.exponent.toNat), []⟩
  else
    let places := (-d.exponent).toNat
    let unit := pow10 places
    ⟨Digits.ofNat (d.coefficient / unit),
      Digits.trimEnd (Digits.ofNatPadded places (d.coefficient % unit))⟩

/-- A decimal in plain notation: without an exponent and without needless zeros; zero has no
sign. -/
def plain (d : Decimal) : List Char :=
  (if d.isNegative then ['-'] else []) ++ d.numeral.text

end Decimal

end Longhand
