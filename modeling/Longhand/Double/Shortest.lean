import Longhand.Digits
/-!
# The shortest decimal that reads back

A finite double is `m * 2 ^ q` for whole numbers `m` and `q`. All reals nearer to it than to any
other double are read as that double, and so are the ends of their interval when `m` is even. Of
the decimals in the interval, `shortest` takes one with the fewest digits; of two with the same
number of digits the nearer one, and of two equally near the one that ends in an even digit.

The search goes over the grids of one, two, … seventeen digits. If any point of a grid lies in the
interval, then so does one of the two neighbours of the double on that grid, so only these are
tried.
-/

namespace Longhand.Double

def pow2 (n : Nat) : Nat :=
  Nat.pow 2 n

/-- What a double is made of: a finite one is `± significand * 2 ^ exponent`. -/
inductive Parts where
  | nan
  | infinity (negative : Bool)
  | finite (negative : Bool) (significand : Nat) (exponent : Int)
deriving DecidableEq, Repr

def minExponent : Int := -1074

/-- The parts of a double, read off its bits. -/
def parts (x : Float) : Parts :=
  let bits := x.toBits.toNat
  let negative := pow2 63 ≤ bits
  let biased := bits / pow2 52 % pow2 11
  let tail := bits % pow2 52
  if biased = pow2 11 - 1 then if tail = 0 then .infinity negative else .nan
  else if biased = 0 then .finite negative tail minExponent
  else .finite negative (tail + pow2 52) (minExponent + (biased - 1 : Nat))

/-- The power of ten of the first digit of the positive fraction `num / den`. -/
def leadingPlace (num den : Nat) : Int :=
  let guess : Int := (Digits.ofNat num).length - (Digits.ofNat den).length
  if den * pow10 guess.toNat ≤ num * pow10 (-guess).toNat then guess else guess - 1

/-- The reals `low / den` to `high / den` around `value / den`, with or without their ends. -/
structure Interval where
  den : Nat
  low : Nat
  value : Nat
  high : Nat
  closed : Bool
deriving Repr

/-- The reals that are read as the double `m * 2 ^ q`. The gap below a power of two is half the gap
above it, except at the least exponent. -/
def interval (m : Nat) (q : Int) : Interval :=
  let scale := pow2 (q - 2).toNat
  let below := if m = pow2 52 ∧ minExponent < q then 1 else 2
  { den := pow2 (2 - q).toNat
    low := (4 * m - below) * scale
    value := 4 * m * scale
    high := (4 * m + 2) * scale
    closed := m % 2 = 0 }

/-- The neighbour of the value on the grid of multiples of `10 ^ k` that lies in the interval, or
the nearer one if both do. -/
def Interval.onGrid? (i : Interval) (k : Int) : Option Nat :=
  let unit := i.den * pow10 k.toNat
  let scale := pow10 (-k).toNat
  let value := i.value * scale
  let d := value / unit
  let within := fun (a b : Nat) => a < b || (i.closed && a = b)
  let below := within (i.low * scale) (d * unit)
  let above := within ((d + 1) * unit) (i.high * scale)
  let rest := value - d * unit
  if below && above then
    some (if 2 * rest < unit || (2 * rest = unit && d % 2 = 0) then d else d + 1)
  else if below then some d
  else if above then some (d + 1)
  else none

def stripZeros (d : Nat) (k : Int) : Nat × Int :=
  if d ≠ 0 ∧ d % 10 = 0 then stripZeros (d / 10) (k + 1) else (d, k)
termination_by d
decreasing_by omega

/-- The number of digits that always suffices. -/
def maxDigits : Nat := 17

/-- The shortest decimal `d * 10 ^ k` that is read as the double `m * 2 ^ q`, for a positive `m`. -/
def shortest (m : Nat) (q : Int) : Nat × Int :=
  let i := interval m q
  let first := leadingPlace i.value i.den
  let grids := (List.range maxDigits).map fun (n : Nat) => first - (n : Int)
  match grids.findSome? fun k => (i.onGrid? k).map (·, k) with
  | some (d, k) => stripZeros d k
  | none => (0, 0)

end Longhand.Double
