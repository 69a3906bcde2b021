import Longhand.Digits
/-!
# Places

The names of the places of a numeral, counted from the point: ones, tens, … before it and tenths,
hundredths, … after it. Beyond the named ones every place is just a column.
-/

namespace Longhand

namespace Place

/-- The named places before the point, from the ones on. -/
def integerNames : List String :=
  ["ones", "tens", "hundreds", "thousands", "ten-thousands", "hundred-thousands", "millions"]

/-- The named places after the point, from the tenths on. -/
def fractionNames : List String :=
  ["tenths", "hundredths", "thousandths", "ten-thousandths"]

/-- The place of the power of ten `n` (`integer_place`). -/
def integer (n : Nat) : String :=
  integerNames[n]?.getD "column"

/-- The place of the power of ten `-(n + 1)` (`fraction_place`). -/
def fraction (n : Nat) : String :=
  fractionNames[n]?.getD "column"

end Place

def count (n : Nat) : String :=
  String.ofList (Digits.text (Digits.ofNat n))

def plural (n : Nat) (noun : String) : String :=
  if n = 1 then count n ++ " " ++ noun else count n ++ " " ++ noun ++ "s"

end Longhand
