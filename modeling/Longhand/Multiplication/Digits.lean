import Longhand.Number.Basic
/-!
# Products and sums of digit strings

A digit string times a factor, digit by digit from the right with the carries that arise, and the
sum of several digit strings, column by column. These are the two calculations of long
multiplication.
-/

namespace Longhand

/-- A product worked out digit by digit: what is left to carry at the end, the digits written, and
the carries that are not zero, each with the index of the digit it came from. -/
structure Product where
  carry : Int
  written : List Digit
  carries : List (Nat × Int)
deriving DecidableEq, Repr, Inhabited

namespace Product

/-- A digit string, whose first digit has an index, times a factor. -/
def ofDigits (factor : Int) (index : Nat) : List Digit → Product
  | [] => ⟨0, [], []⟩
  | d :: rest =>
    let p := ofDigits factor (index + 1) rest
    let total := d.val * factor + p.carry
    let carry := total.ediv 10
    ⟨carry, Digit.ofNat (total.emod 10).toNat :: p.written,
      if carry = 0 then p.carries else p.carries ++ [(index, carry)]⟩

def digits (p : Product) : List Digit :=
  Digits.normalize ((if p.carry = 0 then [] else Digits.ofNat p.carry.toNat) ++ p.written)

/-- A product as text; a carry below zero is written as it is. -/
def text (p : Product) : List Char :=
  if p.carry < 0 then intText p.carry ++ Digits.text p.written else Digits.text p.digits

end Product

namespace Digits

/-- The digit string times a factor. -/
def times (ds : List Digit) (factor : Int) : Product :=
  Product.ofDigits factor 0 ds

/-- The digit string times a factor (`multiply_by_digit`), unless what is left to carry is too long
to be written. -/
def multiply (ds : List Digit) (factor : Int) : Except ArithmeticError Product :=
  let p := times ds factor
  if maxLength < (ofNat p.carry.natAbs).length then .error .unwritableInteger else .ok p

def maxWidth (numbers : List (List Digit)) : Nat :=
  numbers.foldl (fun w ds => max w ds.length) 0

/-- The sums of the columns, with the strings aligned at the right. -/
def columnSums (numbers : List (List Digit)) : List Nat :=
  let width := maxWidth numbers
  numbers.foldl (fun sums ds => List.zipWith (fun s d => s + d.val) sums (padStart width ds))
    (List.replicate width 0)

/-- What is left to carry and the digits written when the carries pass through column sums. -/
def carryThrough : List Nat → Nat × List Digit
  | [] => (0, [])
  | s :: rest =>
    let (carry, written) := carryThrough rest
    ((s + carry) / 10, Digit.ofNat (s + carry) :: written)

/-- The sum of digit strings (`add_digit_strings`). -/
def sum (numbers : List (List Digit)) : List Digit :=
  let (carry, written) := carryThrough (columnSums numbers)
  normalize ((if carry = 0 then [] else ofNat carry) ++ written)

end Digits

end Longhand
