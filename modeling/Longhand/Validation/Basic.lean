import Longhand.Double.Text
import Longhand.Json.Basic
/-!
# Reading values of a kind

Data from outside is read field by field. A value of the wrong kind is an issue with a location and
a reason, and the issues of all fields are collected in the order of the fields. Values are taken
generously: a number may be written as text, a truth value as a number, and so on.
-/

namespace Longhand

/-- Why a value cannot be read. -/
inductive IssueKind where
  | missing
  | enumeration
  | literal
  | greaterThanEqual
  | listType
  | stringType
  | stringTooShort
  | stringUnicode
  | intType
  | intParsing
  | intFromFloat
  | floatType
  | floatParsing
  | finiteNumber
  | boolType
  | boolParsing
  | modelType
  | modelAttributesType
  | jsonInvalid
  /-- A rule about the whole value is broken. -/
  | valueError (message : String)
deriving DecidableEq, Repr, Inhabited

namespace IssueKind

def name : IssueKind → String
  | .missing => "missing"
  | .enumeration => "enum"
  | .literal => "literal_error"
  | .greaterThanEqual => "greater_than_equal"
  | .listType => "list_type"
  | .stringType => "string_type"
  | .stringTooShort => "string_too_short"
  | .stringUnicode => "string_unicode"
  | .intType => "int_type"
  | .intParsing => "int_parsing"
  | .intFromFloat => "int_from_float"
  | .floatType => "float_type"
  | .floatParsing => "float_parsing"
  | .finiteNumber => "finite_number"
  | .boolType => "bool_type"
  | .boolParsing => "bool_parsing"
  | .modelType => "model_type"
  | .modelAttributesType => "model_attributes_type"
  | .jsonInvalid => "json_invalid"
  | .valueError _ => "value_error"

end IssueKind

/-- A value that cannot be read: where it is, and why. -/
structure Issue where
  loc : List String
  kind : IssueKind
deriving DecidableEq, Repr, Inhabited

/-- A value read, or all issues with it. -/
abbrev Checked (α : Type) := Except (List Issue) α

namespace Checked

def fail (kind : IssueKind) : Checked α :=
  .error [⟨[], kind⟩]

/-- The value as a part with a name. -/
def within (name : String) (c : Checked α) : Checked α :=
  c.mapError fun issues => issues.map fun i => { i with loc := name :: i.loc }

/-- Two values, with the issues of both. -/
def both (a : Checked α) (b : Checked β) : Checked (α × β) :=
  match a, b with
  | .ok a, .ok b => .ok (a, b)
  | .error i, .error j => .error (i ++ j)
  | .error i, .ok _ => .error i
  | .ok _, .error j => .error j

/-- The values of a list, the items being named by their index from `index` on. -/
def list (read : Json → Checked α) (index : Nat) : List Json → Checked (List α)
  | [] => .ok []
  | j :: rest =>
    let name := String.ofList (Digits.text (Digits.ofNat index))
    (fun p => p.1 :: p.2) <$> both ((read j).within name) (list read (index + 1) rest)

end Checked

namespace Read

open Checked

/-- A text with its underscores taken out: none may stand at an end or beside another. -/
def withoutUnderscores? : List Char → Option (List Char)
  | '_' :: _ => none
  | s => if s.getLast? = some '_' then none else go s
where
  /-- The characters after the first. -/
  go : List Char → Option (List Char)
    | [] => some []
    | '_' :: '_' :: _ => none
    | '_' :: rest => go rest
    | c :: rest => (go rest).map (c :: ·)

/-- A text without a point and zeros at its end. -/
def dropZeroFraction (s : List Char) : List Char :=
  let rest := (s.dropWhile (· ≠ '.')).tail
  if s.contains '.' && rest.all (· = '0') then s.takeWhile (· ≠ '.') else s

def isDigit (c : Char) : Bool :=
  '0' ≤ c && c ≤ '9'

/-- An integer as text: a sign, digits, single underscores between them, and perhaps a fraction of
zeros. White space around it does not count. -/
def intText? (s : List Char) : Option Int := do
  let (negative, rest) := Text.splitSign (Text.trimWhile Text.isWhiteSpace s)
  let ds ← withoutUnderscores? (dropZeroFraction rest)
  if ds.isEmpty || !ds.all isDigit then none
  else
    let size : Int := Text.digitsValue ds
    some (if negative then -size else size)

/-- A double as text: a numeral in ASCII digits, `inf`, `infinity` or `nan`, with a sign, or such a
numeral with underscores. White space around it does not count. -/
def floatText? (s : List Char) : Option Float := do
  let s := Text.trimWhile Text.isWhiteSpace s
  let ascii := s.all fun c => c.toNat < 0x80
  let ds ← withoutUnderscores? s
  if ascii then Double.read? ds else none

/-- A text; one with half a pair alone in it is taken as it is shown. -/
def string : Json → Checked String
  | .text s | .unpaired (.text s) => .ok s
  | _ => fail .stringType

def nullable (read : Json → Checked α) : Json → Checked (Option α)
  | .null => .ok none
  | j => some <$> read j

/-- An integer, also one written as a truth value, a double or a text. -/
def int : Json → Checked Int
  | .number (.int n) => .ok n
  | .number (.float x) =>
    if !x.isFinite then fail .finiteNumber
    else
      match Double.toInt? x with
      | some n => .ok n
      | none => fail .intFromFloat
  | .bool b => .ok (if b then 1 else 0)
  | .text s =>
    match intText? s.toList with
    | some n => .ok n
    | none => fail .intParsing
  | .unpaired _ => fail .stringUnicode
  | _ => fail .intType

/-- An integer that is not below a bound. -/
def intFrom (bound : Int) (j : Json) : Checked Int := do
  let n ← int j
  if bound ≤ n then .ok n else fail .greaterThanEqual

/-- The double nearest to an integer, if there is one. -/
def floatOfInt? (n : Int) : Option Float :=
  if Double.holdsInt n then some (Double.ofDecimal (Decimal.ofInt n)) else none

/-- A double, also one written as an integer, a truth value or a text. -/
def float : Json → Checked Float
  | .number (.float x) => .ok x
  | .number (.int n) =>
    match floatOfInt? n with
    | some x => .ok x
    | none => fail .floatType
  | .bool b => .ok (if b then 1 else 0)
  | .text s =>
    match floatText? s.toList with
    | some x => .ok x
    | none => fail .floatParsing
  | .unpaired _ => fail .stringUnicode
  | _ => fail .floatType

/-- A number of either kind: as it is, or else an integer if it can be one, or else a double. -/
def number : Json → Checked Number
  | .number n => .ok n
  | j =>
    match int j, float j with
    | .ok n, _ => .ok (.int n)
    | _, .ok x => .ok (.float x)
    | .error i, .error k =>
      .error (i.map (fun x => { x with loc := "int" :: x.loc }) ++
        k.map fun x => { x with loc := "float" :: x.loc })

def boolWords : List (String × Bool) :=
  [("0", false), ("off", false), ("f", false), ("false", false), ("n", false), ("no", false),
   ("1", true), ("on", true), ("t", true), ("true", true), ("y", true), ("yes", true)]

/-- A truth value, also one written as zero or one or as a word for yes or no. -/
def bool : Json → Checked Bool
  | .bool b => .ok b
  | .number n =>
    match n.simplest with
    | .int 0 => .ok false
    | .int 1 => .ok true
    | _ => fail .boolParsing
  | .text s =>
    match boolWords.lookup (String.ofList (Text.lower s.toList)) with
    | some b => .ok b
    | none => fail .boolParsing
  | .unpaired _ => fail .stringUnicode
  | _ => fail .boolType

def required (members : List (String × Json)) (name : String) (read : Json → Checked α) :
    Checked α :=
  within name (match members.lookup name with
    | some j => read j
    | none => fail .missing)

/-- A field with a value for its absence. -/
def optional (members : List (String × Json)) (name : String) (absent : α)
    (read : Json → Checked α) : Checked α :=
  match members.lookup name with
  | some j => within name (read j)
  | none => .ok absent

end Read

end Longhand
