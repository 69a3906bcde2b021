import Longhand.ArithmeticError
import Longhand.Numeral
/-!
# Dividing digit by digit

Long division by a whole divisor goes through the digits of the dividend. Each digit is brought down
beside the remainder so far; the quotient of the two by the divisor is one digit of the answer.

Once the digits of the dividend are used up, zeros are brought down until nothing remains or the
answer has one place more than it is rounded to.
-/

namespace Longhand.Division

/-- The decimal places of a rounded quotient. -/
def places : Nat := 2

/-- What happened when a digit was brought down. -/
structure Line where
  index : Nat
  brought : Digit
  current : Nat
  quotient : Nat
  remainder : Nat
deriving DecidableEq, Repr, Inhabited

/-- The lines for digits, the first of which has an index, after a remainder. -/
def trace (divisor : Nat) (index remainder : Nat) : List Digit → List Line
  | [] => []
  | d :: rest =>
    let current := remainder * 10 + d.val
    let left := current % divisor
    ⟨index, d, current, current / divisor, left⟩ :: trace divisor (index + 1) left rest

/-- A line shows a division with remainder. -/
theorem current_of_mem_trace {divisor index remainder : Nat} {ds : List Digit} {l : Line}
    (h : l ∈ trace divisor index remainder ds) :
    l.current = l.quotient * divisor + l.remainder ∧ l.remainder = l.current % divisor := by
  induction ds generalizing index remainder with
  | nil => simp [trace] at h
  | cons d ds ih =>
    rcases List.mem_cons.1 h with rfl | h
    · exact ⟨(Nat.div_add_mod' _ _).symm, rfl⟩
    · exact ih h

theorem length_trace (divisor index remainder : Nat) (ds : List Digit) :
    (trace divisor index remainder ds).length = ds.length := by
  induction ds generalizing index remainder with
  | nil => rfl
  | cons d ds ih => simp [trace, ih]

/-- The number of zeros brought down after a remainder, at most `room`. -/
def zerosAfter (divisor : Int) (remainder : Int) : Nat → Nat
  | 0 => 0
  | room + 1 =>
    if remainder = 0 then 0
    else 1 + zerosAfter divisor ((remainder * 10).fmod divisor) room

/-- The remainder when digits are brought down, one after the other, beside a remainder. -/
def remainderThrough (divisor : Int) (remainder : Int) (ds : List Digit) : Int :=
  ds.foldl (fun r d => (r * 10 + d.val).fmod divisor) remainder

/-- The digits after the point that are brought down for a divisor other than zero. -/
def broughtDown (work : Numeral) (divisor : Int) : List Digit :=
  let whole := (Digits.value work.integer : Int).fmod divisor
  let remainder := remainderThrough divisor whole work.fraction
  work.fraction ++
    Digits.zeros (zerosAfter divisor remainder (places + 1 - work.fraction.length))

/-- The digits after the point that are brought down (`_fraction_to_bring_down`). The digits before
it have to be read as an integer first. -/
def bringDown (work : Numeral) (divisor : Int) : Except ArithmeticError (List Digit) :=
  if ¬ Digits.Readable work.integer then .error .unreadableInteger
  else if divisor = 0 then .error .zeroDivisor
  else .ok (broughtDown work divisor)

/-- The quotient above the bracket: `offset` blanks, then the digits with a point before the one at
`integerLength`, zeros before the ones left blank. `leading` tells whether only such zeros came
before, and `index` is the index of the first digit. -/
def quotientCells (integerLength : Int) (leading : Bool) (index : Nat) : List Char → List Char
  | [] => []
  | digit :: rest =>
    let blank := leading ∧ digit = '0' ∧ (index : Int) < integerLength - 1
    let cells := (if blank then ' ' else digit) ::
      quotientCells integerLength (decide blank) (index + 1) rest
    if (index : Int) = integerLength then '.' :: cells else cells

def quotientRow (quotient : List Char) (integerLength : Int) (offset : Nat) : List Char :=
  List.replicate offset ' ' ++ quotientCells integerLength true 0 quotient

end Longhand.Division
