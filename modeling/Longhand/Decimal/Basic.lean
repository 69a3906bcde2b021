import Longhand.Digits
/-!
# Decimal numbers

A decimal number is a sign, a coefficient and a power of ten, and denotes
`± coefficient * 10 ^ exponent`. Several decimals denote the same number: `1.50` and `1.5` differ in
their coefficients and exponents. The operations here are exact.
-/

namespace Longhand

/-- A finite decimal number. -/
structure Decimal where
  negative : Bool
  coefficient : Nat
  exponent : Int
deriving DecidableEq, Repr, Inhabited

namespace Decimal

def signed (d : Decimal) : Int :=
  if d.negative then -(d.coefficient : Int) else d.coefficient

/-- The decimal `n * 10 ^ e`. -/
def ofScaled (n e : Int) : Decimal :=
  ⟨n < 0, n.natAbs, e⟩

def ofInt (n : Int) : Decimal :=
  ofScaled n 0

/-- The number of digits of the coefficient; zero has one digit. -/
def digitCount (d : Decimal) : Nat :=
  (Digits.ofNat d.coefficient).length

/-- The power of ten of the first digit. -/
def adjusted (d : Decimal) : Int :=
  d.exponent + d.digitCount - 1

/-- The signed coefficient at an exponent that is not greater than the decimal's own. -/
def scaledTo (d : Decimal) (e : Int) : Int :=
  d.signed * pow10 (d.exponent - e).toNat

/-- The exact sum, at the smaller exponent. -/
def add (a b : Decimal) : Decimal :=
  let e := min a.exponent b.exponent
  ofScaled (a.scaledTo e + b.scaledTo e) e

def neg (d : Decimal) : Decimal :=
  ⟨!d.negative, d.coefficient, d.exponent⟩

def sub (a b : Decimal) : Decimal :=
  a.add b.neg

def mul (a b : Decimal) : Decimal :=
  ⟨a.negative != b.negative, a.coefficient * b.coefficient, a.exponent + b.exponent⟩

/-- The decimal with its point moved `n` places to the right. -/
def shift (d : Decimal) (n : Int) : Decimal :=
  ⟨d.negative, d.coefficient, d.exponent + n⟩

def lt (a b : Decimal) : Bool :=
  let e := min a.exponent b.exponent
  a.scaledTo e < b.scaledTo e

instance : Add Decimal := ⟨add⟩
instance : Sub Decimal := ⟨sub⟩
instance : Mul Decimal := ⟨mul⟩
instance : Neg Decimal := ⟨neg⟩

/-- Zero, of either sign. -/
def isZero (d : Decimal) : Bool :=
  d.coefficient = 0

/-- Less than zero; a zero with a sign is not. -/
def isNegative (d : Decimal) : Bool :=
  d.negative && !d.isZero

/-- The integer denoted, if the number is one. -/
def toInt? (d : Decimal) : Option Int :=
  if 0 ≤ d.exponent then some (d.scaledTo 0)
  else
    let unit := pow10 (-d.exponent).toNat
    if d.coefficient % unit = 0 then some (d.signed / unit) else none

end Decimal

end Longhand
