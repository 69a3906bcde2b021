import Longhand.Json.Lexer
/-!
# Reading JSON

The value of a JSON text. The reader keeps the arrays and objects that are still open on a stack and
goes through the symbols once. Where the text goes wrong, the error tells the position of the symbol
that is not the one due, or the place inside a string or number that cannot be read. The stack has
room for so many open arrays and objects and no more; one more is an error by itself, whatever comes
after it.

If a name occurs twice in an object, the last value counts.
-/

namespace Longhand.Json

/-- An array or object that is still open, with its contents so far, the last first. An object also
keeps the name whose value is being read. Names are given by the numbers of their characters. -/
inductive Frame where
  | array (items : List Json)
  | object (members : List (List Nat × Json)) (name : List Nat)
deriving Inhabited, Repr

/-- What is due next. -/
inductive Due where
  | value
  /-- The first item of an array, or its end. -/
  | firstItem
  /-- The first name of an object, or its end. -/
  | firstName
  /-- A name of an object. -/
  | name
  /-- The colon after a name. -/
  | colon (name : List Nat)
  /-- What follows a value: a separator, the end of an array or object, or the end of the text. -/
  | after (j : Json)
deriving Inhabited, Repr

/-- Members with one more, in place of those of the same name. -/
def addMember (name : List Nat) (j : Json) (members : List (List Nat × Json)) :
    List (List Nat × Json) :=
  (name, j) :: members.filter (·.1 ≠ name)

/-- A member with its name as it is shown. -/
def memberOf (m : List Nat × Json) : String × Json :=
  (shown m.1, if isPaired m.1 then m.2 else .unpaired m.2)

def objectOf (members : List (List Nat × Json)) : Json :=
  .object (members.reverse.map memberOf)

def notValue (position : Nat) : Symbol → JsonError
  | .broken e => e
  | _ => .syntaxAt position

def notName (position : Nat) : Symbol → JsonError
  | .broken (.syntaxAt p) => .syntaxAt p
  | _ => .syntaxAt position

/-- The value of the symbols, with the frames that are open and what is due. -/
def build (room : Nat) : List Frame → Due → List (Nat × Symbol) → Except JsonError Json
  | _, _, [] => .error (.syntaxAt 0)
  | [], .after j, (position, s) :: _ =>
    match s with
    | .endOfText => .ok j
    | _ => .error (.syntaxAt position)
  | frames, due, (position, s) :: rest =>
    match due, s, frames with
    | .value, .openArray, _ | .firstItem, .openArray, _ =>
      if room ≤ frames.length then .error .nestedTooDeep
      else build room (.array [] :: frames) .firstItem rest
    | .value, .openObject, _ | .firstItem, .openObject, _ =>
      if room ≤ frames.length then .error .nestedTooDeep
      else build room (.object [] [] :: frames) .firstName rest
    | .value, .scalar j, _ | .firstItem, .scalar j, _ => build room frames (.after j) rest
    | .value, .text t, _ | .firstItem, .text t, _ =>
      build room frames (.after (ofPoints t)) rest
    | .firstItem, .closeArray, .array items :: below =>
      build room below (.after (.array items.reverse)) rest
    | .value, s, _ | .firstItem, s, _ => .error (notValue position s)
    | .firstName, .closeObject, .object members _ :: below =>
      build room below (.after (objectOf members)) rest
    | .firstName, .text name, _ | .name, .text name, _ => build room frames (.colon name) rest
    | .firstName, s, _ | .name, s, _ => .error (notName position s)
    | .colon name, .colon, .object members _ :: below =>
      build room (.object members name :: below) .value rest
    | .colon _, _, _ => .error (.syntaxAt position)
    | .after j, .comma, .array items :: below =>
      build room (.array (j :: items) :: below) .value rest
    | .after j, .closeArray, .array items :: below =>
      build room below (.after (.array (j :: items).reverse)) rest
    | .after j, .comma, .object members name :: below =>
      build room (.object (addMember name j members) [] :: below) .name rest
    | .after j, .closeObject, .object members name :: below =>
      build room below (.after (objectOf (addMember name j members))) rest
    | .after _, _, _ => .error (.syntaxAt position)

/-- The value of a JSON text, read with room for so many nested values. -/
def read (room : Nat) (s : List Char) : Except JsonError Json :=
  build room [] .value (symbols [] 0 s)

/-- The halves of pairs among the numbers of characters. -/
def halvesOf (points : List Nat) : Halves :=
  (points.zipIdx.filter fun p => Text.isSurrogate p.1).map Prod.swap

/-- The value of a JSON text that is given by the numbers of its characters. -/
def readPoints (room : Nat) (points : List Nat) : Except JsonError Json :=
  build room [] .value (symbols (halvesOf points) 0 (points.map Text.charOf))

/-- The value of the JSON text that some octets encode. -/
def readOctets (room : Nat) (octets : List UInt8) : Except JsonError Json :=
  match Text.ofOctets? octets with
  | some points => readPoints room points
  | none => .error .undecodable

end Longhand.Json
