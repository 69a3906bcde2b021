/-!
# Octets

What is received is a sequence of octets. A JSON text may be encoded in UTF-8, UTF-16 or UTF-32; a
mark before it tells which, and without one the zeros among the first octets do. The text is given
by the numbers of its characters, for the halves of surrogate pairs are let pass.
-/

namespace Longhand.Text

def isHighSurrogate (n : Nat) : Bool :=
  0xD800 ≤ n && n < 0xDC00

def isLowSurrogate (n : Nat) : Bool :=
  0xDC00 ≤ n && n < 0xE000

def isSurrogate (n : Nat) : Bool :=
  isHighSurrogate n || isLowSurrogate n

def joinSurrogates (high low : Nat) : Nat :=
  0x10000 + (high - 0xD800) * 0x400 + (low - 0xDC00)

/-- The character with a number; half a pair is shown as the replacement character. -/
def charOf (n : Nat) : Char :=
  if isSurrogate n then Char.ofNat 0xFFFD else Char.ofNat n

/-! ## One character

The number of the first character of some octets, and how many octets it takes. -/

/-- What the first octet of a character tells: the first digits of the number, how many octets
follow, and the least number that takes so many. -/
def utf8Lead? (a : Nat) : Option (Nat × Nat × Nat) :=
  if a < 0x80 then some (a, 0, 0)
  else if a < 0xC0 then none
  else if a < 0xE0 then some (a - 0xC0, 1, 0x80)
  else if a < 0xF0 then some (a - 0xE0, 2, 0x800)
  else if a < 0xF8 then some (a - 0xF0, 3, 0x10000)
  else none

/-- A number with six more binary digits from each of the octets that follow. -/
def utf8Continue? (n : Nat) : Nat → List UInt8 → Option Nat
  | 0, _ => some n
  | _ + 1, [] => none
  | more + 1, b :: rest =>
    if 0x80 ≤ b.toNat ∧ b.toNat < 0xC0 then utf8Continue? (n * 0x40 + (b.toNat - 0x80)) more rest
    else none

def utf8First? : List UInt8 → Option (Nat × Nat)
  | [] => none
  | a :: rest => do
    let (lead, more, least) ← utf8Lead? a.toNat
    let n ← utf8Continue? lead more rest
    if least ≤ n ∧ n ≤ 0x10FFFF then some (n, more + 1) else none

/-- The number in a few octets, the most significant of which is the first or the last. -/
def wordOf (bigEndian : Bool) (octets : List UInt8) : Nat :=
  (if bigEndian then octets else octets.reverse).foldl (fun n b => n * 0x100 + b.toNat) 0

def utf16First? (bigEndian : Bool) : List UInt8 → Option (Nat × Nat)
  | a :: b :: rest =>
    let n := wordOf bigEndian [a, b]
    match rest with
    | c :: d :: _ =>
      let m := wordOf bigEndian [c, d]
      if isHighSurrogate n && isLowSurrogate m then some (joinSurrogates n m, 4) else some (n, 2)
    | _ => some (n, 2)
  | _ => none

def utf32First? (bigEndian : Bool) : List UInt8 → Option (Nat × Nat)
  | a :: b :: c :: d :: _ =>
    let n := wordOf bigEndian [a, b, c, d]
    if n ≤ 0x10FFFF then some (n, 4) else none
  | _ => none

/-! ## Texts -/

inductive Encoding where
  | utf8
  | utf16 (bigEndian : Bool)
  | utf32 (bigEndian : Bool)
deriving DecidableEq, Repr, Inhabited

namespace Encoding

def first? : Encoding → List UInt8 → Option (Nat × Nat)
  | .utf8 => utf8First?
  | .utf16 bigEndian => utf16First? bigEndian
  | .utf32 bigEndian => utf32First? bigEndian

def decode? (e : Encoding) : List UInt8 → Option (List Nat)
  | [] => some []
  | a :: rest => do
    let (n, size) ← e.first? (a :: rest)
    let ns ← decode? e (rest.drop (size - 1))
    some (n :: ns)
termination_by octets => octets.length

/-- The marks that tell an encoding; one that another begins with comes after it. -/
def marks : List (List UInt8 × Encoding) :=
  [([0x00, 0x00, 0xFE, 0xFF], .utf32 true), ([0xFF, 0xFE, 0x00, 0x00], .utf32 false),
   ([0xFE, 0xFF], .utf16 true), ([0xFF, 0xFE], .utf16 false), ([0xEF, 0xBB, 0xBF], .utf8)]

/-- The encoding of a text without a mark that begins with an ASCII character. -/
def guess : List UInt8 → Encoding
  | a :: b :: c :: d :: _ =>
    if a = 0 then if b = 0 then .utf32 true else .utf16 true
    else if b = 0 then if c = 0 ∧ d = 0 then .utf32 false else .utf16 false
    else .utf8
  | [a, b] => if a = 0 then .utf16 true else if b = 0 then .utf16 false else .utf8
  | _ => .utf8

/-- The encoding of a text, and its octets after the mark. -/
def detect (octets : List UInt8) : Encoding × List UInt8 :=
  match marks.find? (·.1.isPrefixOf octets) with
  | some (mark, e) => (e, octets.drop mark.length)
  | none => (guess octets, octets)

end Encoding

/-- The numbers of the characters of a received text. -/
def ofOctets? (octets : List UInt8) : Option (List Nat) :=
  let (e, rest) := Encoding.detect octets
  e.decode? rest

/-- The text that octets are in UTF-8, in which no half of a pair may stand. -/
def ofUtf8? (octets : List UInt8) : Option String := do
  let ns ← Encoding.utf8.decode? octets
  if ns.any isSurrogate then none else some (String.ofList (ns.map Char.ofNat))

def utf8 (s : List Char) : List UInt8 :=
  s.flatMap String.utf8EncodeChar

end Longhand.Text
