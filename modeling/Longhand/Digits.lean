import Longhand.Text.DecimalDigit
/-!
# Digit strings

Digits, lists of digits with the most significant first, and the numbers they spell. Leading zeros
and the empty list are allowed: `value` does not see them, and `ofNat` writes neither, except that
zero is written as one digit.
-/

namespace Longhand

def pow10 (n : Nat) : Nat :=
  Nat.pow 10 n

abbrev Digit := Fin 10

namespace Digit

def char (d : Digit) : Char :=
  Nat.digitChar d.val

/-- The digit a number ends in. -/
def ofNat (n : Nat) : Digit :=
  ⟨n % 10, Nat.mod_lt n (by decide)⟩

/-- The digit that a character of any script stands for. -/
def ofChar? (c : Char) : Option Digit :=
  match h : Text.decimalDigit? c with
  | some d => some ⟨d, Text.decimalDigit?_lt h⟩
  | none => none

end Digit

namespace Digits

/-- The most digits with which an integer is written or read. -/
def maxLength : Nat := 4300

/-- A digit string that can be read as an integer. Leading zeros count towards its length. -/
def Readable (ds : List Digit) : Prop :=
  ds ≠ [] ∧ ds.length ≤ maxLength

instance (ds : List Digit) : Decidable (Readable ds) :=
  inferInstanceAs (Decidable (ds ≠ [] ∧ ds.length ≤ maxLength))

def value (ds : List Digit) : Nat :=
  ds.foldl (fun n d => 10 * n + d.val) 0

/-- The digits of a number, without leading zeros, before the digits already written. -/
def ofNatBefore (written : List Digit) (n : Nat) : List Digit :=
  if n < 10 then Digit.ofNat n :: written
  else ofNatBefore (Digit.ofNat n :: written) (n / 10)
termination_by n

/-- The digits of a number, without leading zeros; zero has one digit. -/
def ofNat (n : Nat) : List Digit :=
  ofNatBefore [] n

def text (ds : List Digit) : List Char :=
  ds.map Digit.char

def ofText? (s : List Char) : Option (List Digit) :=
  s.mapM Digit.ofChar?

/-- A digit string without its leading zeros, but never without digits. -/
def normalize (ds : List Digit) : List Digit :=
  match ds.dropWhile (· = 0) with
  | [] => [0]
  | d :: rest => d :: rest

def trimEnd (ds : List Digit) : List Digit :=
  (ds.reverse.dropWhile (· = 0)).reverse

/-- The last `width` digits of a number, with leading zeros. -/
def ofNatPadded (width n : Nat) : List Digit :=
  match width with
  | 0 => []
  | w + 1 => ofNatPadded w (n / 10) ++ [Digit.ofNat n]

def zeros (n : Nat) : List Digit :=
  List.replicate n 0

def padStart (width : Nat) (ds : List Digit) : List Digit :=
  zeros (width - ds.length) ++ ds

end Digits

end Longhand
