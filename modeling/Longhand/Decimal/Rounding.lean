import Longhand.Decimal.Value
import Longhand.ArithmeticError
/-!
# Rounding decimals

Two ways to lose digits. `roundTo` keeps a number of digits and sends a half to the even neighbour,
as the result of a calculation in a working precision is rounded. `quantize` brings a number to an
exponent and sends a half away from zero; it refuses a result with more digits than the precision.

A calculation has exponents between fixed bounds. `quantum` gives the power of ten for a number of
decimal places within them.
-/

namespace Longhand

/-- The digits a calculation keeps when nothing else is asked for. -/
def defaultPrecision : Nat := 28

/-- The most digits that a calculation can be told to keep. -/
def maxPrecision : Nat := 999999999999999999

/-- The greatest power of ten that the first digit of a result may have. -/
def maxAdjusted : Int := 999999

/-- The least power of ten that the first digit of a result in full precision may have. -/
def minAdjusted : Int := -999999

/-- The least exponent of a result in a precision. -/
def minExponent (precision : Nat) : Int :=
  minAdjusted - (precision - 1)

/-- `n / unit` to the nearest integer, a half going to the even neighbour. -/
def divHalfEven (n unit : Nat) : Nat :=
  let q := n / unit
  let r := n % unit
  if 2 * r > unit || (2 * r = unit && q % 2 = 1) then q + 1 else q

/-- `n / unit` to the nearest integer, a half going up. -/
def divHalfUp (n unit : Nat) : Nat :=
  let q := n / unit
  if unit ≤ 2 * (n % unit) then q + 1 else q

namespace Decimal

/-- The number with at most `precision` digits, a half going to the even neighbour. -/
def roundTo (precision : Nat) (d : Decimal) : Decimal :=
  let excess := d.digitCount - precision
  if excess = 0 then d
  else
    let c := divHalfEven d.coefficient (pow10 excess)
    if c = pow10 precision then ⟨d.negative, c / 10, d.exponent + excess + 1⟩
    else ⟨d.negative, c, d.exponent + excess⟩

/-- The number as a multiple of `10 ^ e`, a half going away from zero. -/
def atExponent (e : Int) (d : Decimal) : Decimal :=
  if e ≤ d.exponent then ⟨d.negative, d.coefficient * pow10 (d.exponent - e).toNat, e⟩
  else ⟨d.negative, divHalfUp d.coefficient (pow10 (e - d.exponent).toNat), e⟩

/-- The exact hundredth, at the decimal's own exponent as far as the digits allow. -/
def hundredth (d : Decimal) : Decimal :=
  if d.coefficient % 100 = 0 then ⟨d.negative, d.coefficient / 100, d.exponent⟩
  else if d.coefficient % 10 = 0 then ⟨d.negative, d.coefficient / 10, d.exponent - 1⟩
  else ⟨d.negative, d.coefficient, d.exponent - 2⟩

/-- The exponent of `10 ^ (-places)` in a precision. -/
def quantum (precision : Nat) (places : Int) : Except ArithmeticError Int :=
  if 2 * (maxAdjusted + precision) < places.natAbs then .error .undefinedDecimal
  else if maxAdjusted < -places then .error .decimalOverflow
  else .ok (max (-places) (minExponent precision))

/-- The number at the exponent `e`, a half going away from zero. -/
def quantize (precision : Nat) (e : Int) (d : Decimal) : Except ArithmeticError Decimal :=
  if maxAdjusted < e || e < minExponent precision then .error .undefinedDecimal
  else if d.isZero then .ok ⟨d.negative, 0, e⟩
  else if precision < d.digitCount + (d.exponent - e) then .error .undefinedDecimal
  else
    let r := d.atExponent e
    if maxAdjusted < r.adjusted || r.adjusted < minExponent precision then .error .undefinedDecimal
    else .ok r

end Decimal

namespace DecimalValue

/-- The value at the exponent `e`: an infinity has none, and what is no number stays so. -/
def quantize (precision : Nat) (e : Int) : DecimalValue → Except ArithmeticError DecimalValue
  | .finite d => (d.quantize precision e).map .finite
  | .infinity _ => .error .undefinedDecimal
  | .nan _ true _ => .error .undefinedDecimal
  | .nan negative false payload => .ok (.nan negative false payload)

end DecimalValue

end Longhand
