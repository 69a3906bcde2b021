import Longhand.Decimal.Rounding
import Longhand.Number.Basic
/-!
# Rounding to decimal places

Numbers rounded to a number of decimal places, and quotients so rounded, a half always going away
from zero. A quotient is worked out on fractions of integers, so nothing is rounded twice.
`exactPrecision` is the number of digits with which sums and products of numbers are exact.
-/

namespace Longhand

/-- The digits and zeros that a decimal takes when it is written without an exponent. -/
def Decimal.span (d : Decimal) : Nat :=
  d.digitCount + d.exponent.natAbs

namespace DecimalValue

/-- The digits kept in rounding to `places` decimal places: all of them and one more. -/
def workingPrecision (v : DecimalValue) (places : Int) : Nat :=
  max defaultPrecision (v.adjusted + places + 2).toNat

/-- The number rounded to `places` decimal places, a half going away from zero (`round_half_up`). -/
def roundHalfUp (v : DecimalValue) (places : Int) : Except ArithmeticError Number :=
  let precision := v.workingPrecision places
  if maxPrecision < precision then .error (.precisionTooLarge precision)
  else do
    let e ← Decimal.quantum precision places
    let rounded ← v.quantize precision e
    Number.ofValue rounded

/-- The span of a value; only a number has one. -/
def span : DecimalValue → Except ArithmeticError Nat
  | .finite d => .ok d.span
  | _ => .error .noExponent

end DecimalValue

/-- The precision that values of these spans need. -/
def precisionOfSpans (spans : List Nat) : Nat :=
  max defaultPrecision (spans.foldl (· + ·) 0 + 2)

/-- The digits with which the sums and products of values are exact (`exact_precision`). -/
def exactPrecision (vs : List DecimalValue) : Except ArithmeticError Nat := do
  let spans ← vs.mapM DecimalValue.span
  .ok (precisionOfSpans spans)

namespace Decimal

/-- The decimal as a fraction in lowest terms. -/
def ratio (d : Decimal) : Int × Nat :=
  if 0 ≤ d.exponent then (d.scaledTo 0, 1)
  else
    let unit := pow10 (-d.exponent).toNat
    let g := d.coefficient.gcd unit
    (d.signed / g, unit / g)

/-- The quotient rounded to `places` decimal places, a half going away from zero. The divisor is
not zero. -/
def divideHalfUp (a b : Decimal) (places : Nat) : Decimal :=
  let (m, k) := a.ratio
  let (n, l) := b.ratio
  let num := m * l * pow10 places
  let den := k * n
  let num := if den < 0 then -num else num
  ⟨num < 0, divHalfUp num.natAbs den.natAbs, -places⟩

end Decimal

namespace DecimalValue

/-- The value as a finite decimal, which alone is a fraction. -/
def finite? : DecimalValue → Except ArithmeticError Decimal
  | .finite d => .ok d
  | .infinity _ => .error .infiniteInteger
  | .nan _ _ _ => .error .nanFraction

/-- The quotient as a number, rounded to `places` decimal places, a half going away from zero
(`divide_half_up`). It is written in units of the last place on the way, and has no result if it is
too long for that. A negative number of places has no result, whatever the operands. -/
def divideHalfUp (a b : DecimalValue) (places : Int) : Except ArithmeticError Number := do
  let a ← a.finite?
  let b ← b.finite?
  let (m, k) := a.ratio
  let (n, l) := b.ratio
  if 0 ≤ places then
    if b.isZero then .error .zeroDivisor
    else
      let quotient := a.divideHalfUp b places.toNat
      if Digits.maxLength < quotient.digitCount then .error .nanFraction
      else .ok (Number.ofDecimal quotient)
  else if !Double.holdsInt (m * l) || !Double.holdsInt (k * n) then .error .integerTooLarge
  else if b.isZero then .error .zeroDivisor
  else .error .undefinedDecimal

end DecimalValue

end Longhand
