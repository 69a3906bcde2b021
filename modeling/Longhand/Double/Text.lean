import Longhand.Double.Shortest
import Longhand.Decimal.Text
/-!
# Doubles as text

A double is written with the shortest digits that read back: positionally, always with a point, if
the power of ten of its first digit is at least -4 and below 16, and otherwise with one digit before
the point and an exponent of two digits or more. `exact` is the decimal so written, and the
arithmetic on paper works with it.
-/

namespace Longhand.Double

/-- Whether a number whose first digit has this power of ten is written positionally. -/
def isPositional (first : Int) : Bool :=
  -4 ≤ first && first < 16

/-- The decimal that a finite double is written as; a whole number written positionally has one
zero after its point. -/
def ofParts (negative : Bool) (m : Nat) (q : Int) : Decimal :=
  if m = 0 then ⟨negative, 0, -1⟩
  else
    let (d, k) := shortest m q
    if 0 ≤ k ∧ isPositional (k + (Digits.ofNat d).length - 1) then
      ⟨negative, d * pow10 (k.toNat + 1), -1⟩
    else ⟨negative, d, k⟩

/-- The value that a double is written as. -/
def exact (x : Float) : DecimalValue :=
  match parts x with
  | .nan => .nan false false 0
  | .infinity negative => .infinity negative
  | .finite negative m q => .finite (ofParts negative m q)

/-- Digits with the point before the last `places` of them, and at least one digit before it. -/
def pointBefore (places : Nat) (digits : List Char) : List Char :=
  let padded := List.replicate (places + 1 - digits.length) '0' ++ digits
  padded.take (padded.length - places) ++ '.' :: padded.drop (padded.length - places)

/-- The exponent of a number written with one digit before the point. -/
def exponentText (n : Int) : List Char :=
  let digits := Digits.text (Digits.ofNat n.natAbs)
  'e' :: (if n < 0 then '-' else '+') :: List.replicate (2 - digits.length) '0' ++ digits

def decimalText (d : Decimal) : List Char :=
  let digits := Digits.text (Digits.ofNat d.coefficient)
  let sign := if d.negative then ['-'] else []
  if isPositional d.adjusted then sign ++ pointBefore d.exponent.natAbs digits
  else
    let tail := if digits.length = 1 then [] else '.' :: digits.drop 1
    sign ++ digits.take 1 ++ tail ++ exponentText d.adjusted

def text (x : Float) : List Char :=
  match exact x with
  | .finite d => decimalText d
  | .infinity negative => (if negative then "-inf" else "inf").toList
  | .nan _ _ _ => "nan".toList

def infinity (negative : Bool) : Float :=
  if negative then -1 / 0 else 1 / 0

def nan : Float := 0 / 0

/-- The double nearest to a decimal, an infinity if it is beyond the greatest double. -/
def ofDecimal (d : Decimal) : Float :=
  let size :=
    if d.isZero then 0
    else if 400 < d.adjusted then infinity false
    else if d.adjusted < -400 then 0
    else Float.ofScientific d.coefficient (d.exponent < 0) d.exponent.natAbs
  if d.negative then -size else size

def ofValue : DecimalValue → Float
  | .finite d => ofDecimal d
  | .infinity negative => infinity negative
  | .nan _ _ _ => nan

/-- Whether each underscore of a text stands between two digits; `previous` tells whether a digit
stands before the text. -/
def underscoresJoinDigits (previous : Bool) : List Char → Bool
  | [] => true
  | '_' :: c :: rest =>
    previous && Text.isDecimalDigit c && underscoresJoinDigits true rest
  | '_' :: [] => false
  | c :: rest => underscoresJoinDigits (Text.isDecimalDigit c) rest

/-- The double that a text denotes: a numeral, `inf`, `infinity` or `nan`, with an optional sign.
White space around it does not count, nor does an underscore between two digits. -/
def read? (s : List Char) : Option Float :=
  let s := Text.trimWhile Text.isWhiteSpace s
  let (negative, word) := Text.splitSign s
  let word := Text.lower word
  if word = "inf".toList || word = "infinity".toList then some (infinity negative)
  else if word = "nan".toList then some nan
  else if underscoresJoinDigits false s then (Decimal.read? (s.filter (· ≠ '_'))).map ofDecimal
  else none

def toInt? (x : Float) : Option Int :=
  match parts x with
  | .finite negative m q =>
    let unit := pow2 (-q).toNat
    if m % unit = 0 then
      let size : Int := m / unit * pow2 q.toNat
      some (if negative then -size else size)
    else none
  | _ => none

/-- Whether a whole number is small enough to have a nearest finite double. -/
def holdsInt (n : Int) : Bool :=
  n.natAbs < pow2 1024 - pow2 970

end Longhand.Double
