import Longhand.Decimal.Value
import Longhand.Text.Blank
/-!
# Decimals as text

The scientific form, which keeps coefficient and exponent, and the reader of numerals. A numeral is
digits with at most one point, at least one digit, and an optional exponent; its exponent counts
the digits after the point, so the form written is read back unchanged.
-/

namespace Longhand

namespace Text

/-- The value of a run of decimal digits of any script; other characters count as zero. -/
def digitsValue (s : List Char) : Nat :=
  s.foldl (fun n c => 10 * n + (decimalDigit? c).getD 0) 0

/-- The sign before a text, whether it is a minus, and the rest. -/
def splitSign : List Char → Bool × List Char
  | '-' :: rest => (true, rest)
  | '+' :: rest => (false, rest)
  | rest => (false, rest)

/-- An exponent mark with an optional sign and digits, or nothing at all. -/
def readExponent? : List Char → Option Int
  | [] => some 0
  | c :: rest =>
    let (negative, ds) := splitSign rest
    if (c = 'e' || c = 'E') && !ds.isEmpty && ds.all isDecimalDigit then
      some (if negative then -(digitsValue ds : Int) else digitsValue ds)
    else none

def lower (s : List Char) : List Char :=
  s.map Char.toLower

end Text

namespace Decimal

open Text

/-- The decimal that an unsigned numeral denotes, with the sign given. -/
def readUnsigned? (negative : Bool) (s : List Char) : Option Decimal :=
  let whole := s.takeWhile isDecimalDigit
  let afterWhole := s.dropWhile isDecimalDigit
  let hasPoint := afterWhole.head? == some '.'
  let afterPoint := if hasPoint then afterWhole.tail else afterWhole
  let fraction := if hasPoint then afterPoint.takeWhile isDecimalDigit else []
  let rest := afterPoint.drop fraction.length
  if whole.isEmpty && fraction.isEmpty then none
  else (readExponent? rest).map fun e =>
    ⟨negative, digitsValue (whole ++ fraction), e - fraction.length⟩

def read? (s : List Char) : Option Decimal :=
  let (negative, rest) := splitSign s
  readUnsigned? negative rest

def exponentText (n : Int) : List Char :=
  'E' :: (if n < 0 then '-' else '+') :: Digits.text (Digits.ofNat n.natAbs)

/-- The scientific form: positional if the exponent is not positive and at most five zeros stand
between the point and the first digit, and otherwise with one digit before the point. -/
def text (d : Decimal) : List Char :=
  let digits := Digits.text (Digits.ofNat d.coefficient)
  let sign := if d.negative then ['-'] else []
  let left := d.exponent + digits.length
  let place := if d.exponent ≤ 0 ∧ -6 < left then left else 1
  let body :=
    if place ≤ 0 then '0' :: '.' :: List.replicate (-place).toNat '0' ++ digits
    else if place.toNat < digits.length then
      digits.take place.toNat ++ '.' :: digits.drop place.toNat
    else digits
  sign ++ body ++ (if left = place then [] else exponentText (left - place))

end Decimal

namespace DecimalValue

open Text

/-- The value that a text denotes. Blanks around it and underscores in it do not count, and the
letters of the special values may be of either case. -/
def read? (s : List Char) : Option DecimalValue :=
  let s := (trim s).filter (· ≠ '_')
  let (negative, rest) := splitSign s
  match Decimal.readUnsigned? negative rest with
  | some d => some (.finite d)
  | none =>
    let word := lower rest
    if word = "inf".toList || word = "infinity".toList then some (.infinity negative)
    else
      let signaling := word.head? == some 's'
      let word := if signaling then word.tail else word
      let payload := word.drop 3
      if word.take 3 = "nan".toList && payload.all isDecimalDigit then
        some (.nan negative signaling (digitsValue payload))
      else none

/-- The text of a value: the scientific form of a number, and a word for the others. -/
def text : DecimalValue → List Char
  | .finite d => d.text
  | .infinity negative => (if negative then ['-'] else []) ++ "Infinity".toList
  | .nan negative signaling payload =>
    (if negative then ['-'] else []) ++ (if signaling then "sNaN" else "NaN").toList ++
      (if payload = 0 then [] else Digits.text (Digits.ofNat payload))

end DecimalValue

end Longhand
