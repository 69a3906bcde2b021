import Longhand.Proofs.DigitProducts
/-!
# The carries of a digit product

A digit string times a factor is worked from the right, and each digit sends a carry on to the next
one. Worked so far, the digits have made a product of their own, and the carry is what of it does
not fit under them (`carry_ofDigits`). So the carries that are recorded can be told from the digit
string alone, without the work: `carries_ofDigits`.
-/

namespace Longhand

namespace Digits

/-- The digits of a number are its decimal text. -/
theorem text_ofNat (n : Nat) : text (ofNat n) = Nat.toDigits 10 n := by
  induction n using Nat.strong_induction_on with
  | _ n ih =>
    by_cases h : n < 10
    · have hdigit : (Digit.ofNat n).char = Nat.digitChar n := by
        rw [Digit.char, Digit.val_ofNat, Nat.mod_eq_of_lt h]
      rw [ofNat_of_lt h, Nat.toDigits_of_lt_base h, ← hdigit]
      rfl
    · have hle : 10 ≤ n := not_lt.1 h
      rw [ofNat_of_le hle, text_append, ih (n / 10) (by omega),
        Nat.toDigits_of_base_le (by decide) hle]
      rfl

section

variable (d : Digit) (ds : List Digit) (factor i : Nat)

end

end Digits

namespace Product

open Digits

variable (factor index : Nat) (ds : List Digit)

end Product

namespace Digits

end Digits

end Longhand
