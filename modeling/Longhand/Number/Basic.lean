import Longhand.ArithmeticError
import Longhand.Decimal.Text
import Longhand.Double.Text
import Longhand.Numeral
/-!
# Numbers

A number is an integer or a double. Each has an exact decimal: an integer is its own, and a double
has the decimal it is written as. Back from a decimal, a whole number becomes an integer and any
other the nearest double.
-/

namespace Longhand

inductive Number where
  | int (n : Int)
  | float (x : Float)
deriving DecidableEq, Repr, Inhabited

inductive Quantity where
  | number (n : Number)
  | decimal (v : DecimalValue)
deriving DecidableEq, Repr, Inhabited

def intText (n : Int) : List Char :=
  (if n < 0 then ['-'] else []) ++ Digits.text (Digits.ofNat n.natAbs)

namespace Number

/-- The exact decimal value of a number (`to_decimal`). -/
def exact : Number → DecimalValue
  | .int n => .finite (Decimal.ofInt n)
  | .float x => Double.exact x

/-- A whole double as an integer, any other number as it is. -/
def simplest : Number → Number
  | .int n => .int n
  | .float x =>
    match Double.toInt? x with
    | some n => .int n
    | none => .float x

/-- The number nearest to a decimal: itself if it is whole. -/
def ofDecimal (d : Decimal) : Number :=
  match d.toInt? with
  | some n => .int n
  | none => .float (Double.ofDecimal d)

/-- The number nearest to a value; an infinity and what signals have none. -/
def ofValue : DecimalValue → Except ArithmeticError Number
  | .finite d => .ok (ofDecimal d)
  | .infinity _ => .error .infiniteInteger
  | .nan _ true _ => .error .undefinedDecimal
  | .nan _ false _ => .ok (.float Double.nan)

def text : Number → List Char
  | .int n => intText n
  | .float x => Double.text x

end Number

namespace DecimalValue

/-- A value in plain notation (`format_number`). -/
def plain : DecimalValue → List Char
  | .finite d => d.plain
  | v => v.text

end DecimalValue

namespace Quantity

def exact : Quantity → DecimalValue
  | .number n => n.exact
  | .decimal v => v

/-- The quantity as a number, whole if it can be (`as_number`). -/
def toNumber : Quantity → Except ArithmeticError Number
  | .number n => .ok n.simplest
  | .decimal v => Number.ofValue v

end Quantity

end Longhand
