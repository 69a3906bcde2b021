import Longhand.Number.Basic
/-!
# JSON values

Numbers keep their kind: a numeral without point and exponent is an integer, any other a double.
An object is a list of members in the order in which they are written.

A JSON text can name characters that no Unicode text has, the halves of surrogate pairs. Texts with
such a half in them are values too, but they cannot be sent.
-/

namespace Longhand

inductive Json where
  | null
  | bool (b : Bool)
  | number (n : Number)
  | text (s : String)
  /-- A text with half a pair alone in it, or a value whose name in an object has one. The half is
  shown as the replacement character. -/
  | unpaired (j : Json)
  | array (items : List Json)
  | object (members : List (String × Json))
deriving Inhabited, Repr

namespace Json

def int (n : Int) : Json :=
  .number (.int n)

def nat (n : Nat) : Json :=
  .int n

def ofOption (f : α → Json) : Option α → Json
  | some a => f a
  | none => .null

def members? : Json → Option (List (String × Json))
  | .object ms => some ms
  | _ => none

def get? (j : Json) (name : String) : Option Json :=
  j.members?.bind fun ms => ms.lookup name

/-- Whether a value is a text with half a pair alone in it. -/
def isUnpaired : Json → Bool
  | .unpaired _ => true
  | _ => false

/-! ## What is left out -/

mutual

/-- The value without the members of objects that are null. -/
def withoutNulls : Json → Json
  | .array items => .array (itemsWithoutNulls items)
  | .object members => .object (membersWithoutNulls members)
  | j => j

def itemsWithoutNulls : List Json → List Json
  | [] => []
  | j :: rest => withoutNulls j :: itemsWithoutNulls rest

def membersWithoutNulls : List (String × Json) → List (String × Json)
  | [] => []
  | (_, .null) :: rest => membersWithoutNulls rest
  | (name, j) :: rest => (name, withoutNulls j) :: membersWithoutNulls rest

end

mutual

/-- The value with null in place of the numbers that are not finite, which the standard has none of. -/
def standard : Json → Json
  | .number (.float x) => if x.isFinite then .number (.float x) else .null
  | .array items => .array (standardItems items)
  | .object members => .object (standardMembers members)
  | j => j

def standardItems : List Json → List Json
  | [] => []
  | j :: rest => standard j :: standardItems rest

def standardMembers : List (String × Json) → List (String × Json)
  | [] => []
  | (name, j) :: rest => (name, standard j) :: standardMembers rest

end

/-! ## What cannot be sent -/

/-- Why a value cannot be sent. -/
inductive SendError where
  | notFinite
  | nestedTooDeep
  | unpaired
deriving DecidableEq, Repr

mutual

/-- What stops the writing of a value where there is room for so many nested ones. -/
def obstacle? : Json → Nat → Option SendError
  | .number (.float x), _ => if x.isFinite then none else some .notFinite
  | .unpaired j, room => obstacle? j room
  | .array _, 0 | .object _, 0 => some .nestedTooDeep
  | .array items, room + 1 => itemsObstacle? items room
  | .object members, room + 1 => membersObstacle? members room
  | _, _ => none

def itemsObstacle? : List Json → Nat → Option SendError
  | [], _ => none
  | j :: rest, room => (obstacle? j room).or (itemsObstacle? rest room)

def membersObstacle? : List (String × Json) → Nat → Option SendError
  | [], _ => none
  | (_, j) :: rest, room => (obstacle? j room).or (membersObstacle? rest room)

end

mutual

/-- Whether a text with half a pair alone stands anywhere in a value. -/
def hasUnpaired : Json → Bool
  | .unpaired _ => true
  | .array items => itemsHaveUnpaired items
  | .object members => membersHaveUnpaired members
  | _ => false

def itemsHaveUnpaired : List Json → Bool
  | [] => false
  | j :: rest => hasUnpaired j || itemsHaveUnpaired rest

def membersHaveUnpaired : List (String × Json) → Bool
  | [] => false
  | (_, j) :: rest => hasUnpaired j || membersHaveUnpaired rest

end

/-- Why a value cannot be sent where there is room for so many nested ones: it cannot be written, or
what is written is no Unicode text. -/
def sendError? (j : Json) (room : Nat) : Option SendError :=
  (j.obstacle? room).or (if j.hasUnpaired then some .unpaired else none)

mutual

/-- How many values are nested in one another, a value that holds none not counted. -/
def depth : Json → Nat
  | .unpaired j => depth j
  | .array items => itemsDepth items + 1
  | .object members => membersDepth members + 1
  | _ => 0

def itemsDepth : List Json → Nat
  | [] => 0
  | j :: rest => max (depth j) (itemsDepth rest)

def membersDepth : List (String × Json) → Nat
  | [] => 0
  | (_, j) :: rest => max (depth j) (membersDepth rest)

end

/-- How many values may be nested in one another: in a text that is read, in one that is written, and
in a value that a reply repeats. It depends on how much of the stack is in use, but the replies of the
service themselves always have room. -/
structure Room where
  reading : Nat
  writing : Nat
  repeating : Nat
  four_le_reading : 4 ≤ reading
  eight_le_writing : 8 ≤ writing

end Json

end Longhand
