/-!
# Arithmetic without a result

The ways in which a calculation on numbers has no result. None of them is a fault in the text of an
expression; they arise from values that are too large, infinite or no number.
-/

namespace Longhand

/-- Why a calculation has no result. -/
inductive ArithmeticError where
  /-- A decimal operation is not defined on its operands within the bounds in force. -/
  | undefinedDecimal
  /-- A decimal result is beyond the greatest decimal. -/
  | decimalOverflow
  /-- A divisor is zero. -/
  | zeroDivisor
  /-- An infinity was to become an integer or a fraction. -/
  | infiniteInteger
  /-- An integer is beyond the greatest double. -/
  | integerTooLarge
  /-- What is no number was to become a fraction, or a fraction an integer that is too long to be
  written. -/
  | nanFraction
  /-- A digit string without digits, or with too many, was to be read as an integer. -/
  | unreadableInteger
  /-- An integer with too many digits was to be written. -/
  | unwritableInteger
  /-- A decimal calculation was to keep so many digits, which is more than any can. -/
  | precisionTooLarge (precision : Nat)
  /-- An infinity or what is no number was asked for its exponent. -/
  | noExponent
deriving DecidableEq, Repr

end Longhand
