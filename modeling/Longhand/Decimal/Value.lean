import Longhand.Decimal.Basic
/-!
# Decimal values with infinities and not-a-number

A decimal calculation can be handed values that are no numbers: the infinities, and values marked
as no number, which may be quiet or signaling and may carry a payload.
-/

namespace Longhand

/-- A decimal number, an infinity or a value that is no number. -/
inductive DecimalValue where
  | finite (d : Decimal)
  | infinity (negative : Bool)
  | nan (negative signaling : Bool) (payload : Nat)
deriving DecidableEq, Repr, Inhabited

namespace DecimalValue

/-- The power of ten of the first digit; zero for what has no digits. -/
def adjusted : DecimalValue → Int
  | .finite d => d.adjusted
  | _ => 0

end DecimalValue

end Longhand
