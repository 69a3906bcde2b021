import Longhand.Json.Basic
import Longhand.Text.Encoding
/-!
# The symbols of a JSON text

A JSON text is a sequence of symbols: brackets, separators, strings, numbers and words. Each symbol
keeps the position of its first character. The list ends with the end of the text or with the first
thing that is no symbol; what that means is for the reader to say, since where a separator is due
even a broken string is only something else than a separator.

A string is read as the numbers of its characters. A half of a surrogate pair may be written in it by
its number, and where the text was decoded from octets it may stand there itself: `halves` are the
positions of such, with their numbers.

Besides the words of the standard, `NaN` and the infinities are read as numbers.
-/

namespace Longhand

/-- Why a text is no JSON value. -/
inductive JsonError where
  /-- The text goes wrong at a character. -/
  | syntaxAt (position : Nat)
  /-- An integer has more digits than are read. -/
  | numeralTooLong
  /-- An array or object is opened inside too many others. -/
  | nestedTooDeep
  /-- The octets are no text. -/
  | undecodable
deriving DecidableEq, Repr

namespace Json

/-- A symbol of a JSON text. -/
inductive Symbol where
  | openObject
  | closeObject
  | openArray
  | closeArray
  | colon
  | comma
  | text (points : List Nat)
  /-- A value written without quotes. -/
  | scalar (j : Json)
  /-- A string or number that cannot be read. -/
  | broken (e : JsonError)
  /-- A character that starts no symbol. -/
  | foreign
  | endOfText
deriving Inhabited, Repr

/-- The most digits that an integer may have. -/
def maxDigits : Nat := Digits.maxLength

/-- The four characters that separate symbols. -/
def isSpace (c : Char) : Bool :=
  c = ' ' || c = '\t' || c = '\n' || c = '\r'

def isDigit (c : Char) : Bool :=
  '0' ≤ c && c ≤ '9'

/-! ## Strings -/

def hexDigit? (c : Char) : Option Nat :=
  if isDigit c then some (c.toNat - '0'.toNat)
  else if 'a' ≤ c ∧ c ≤ 'f' then some (c.toNat - 'a'.toNat + 10)
  else if 'A' ≤ c ∧ c ≤ 'F' then some (c.toNat - 'A'.toNat + 10)
  else none

def hex4? (a b c d : Char) : Option Nat := do
  let a ← hexDigit? a
  let b ← hexDigit? b
  let c ← hexDigit? c
  let d ← hexDigit? d
  some (((a * 16 + b) * 16 + c) * 16 + d)

/-- The halves of pairs that stand alone, as numbers of characters. -/
abbrev Halves := List (Nat × Nat)

/-- The text of the characters with some numbers, as it is shown. -/
def shown (points : List Nat) : String :=
  String.ofList (points.map Text.charOf)

/-- Whether no half of a pair stands alone among the numbers of characters. -/
def isPaired (points : List Nat) : Bool :=
  points.all fun n => !Text.isSurrogate n

/-- The value of a string. -/
def ofPoints (points : List Nat) : Json :=
  if isPaired points then .text (shown points) else .unpaired (.text (shown points))

/-- The number of the character at a position. -/
def pointAt (halves : Halves) (position : Nat) (c : Char) : Nat :=
  (halves.lookup position).getD c.toNat

/-- The character that a letter after a backslash stands for. -/
def simpleEscape? : Char → Option Char
  | '"' => some '"'
  | '\\' => some '\\'
  | '/' => some '/'
  | 'b' => some '\x08'
  | 'f' => some '\x0c'
  | 'n' => some '\n'
  | 'r' => some '\r'
  | 't' => some '\t'
  | _ => none

/-- The number of the second half of a pair, if one is written at the start of a text with at least
one more character after it. An escape with other digits cannot be read. -/
def secondHalf? : List Char → Except Unit (Option Nat)
  | '\\' :: 'u' :: a :: b :: c :: d :: _ :: _ =>
    match hex4? a b c d with
    | some n => .ok (if Text.isLowSurrogate n then some n else none)
    | none => .error ()
  | _ => .ok none

/-- The characters of a string after its opening quote, by their numbers, and the position after its
closing quote. `start` is the position of the opening quote and `position` that of the next
character; `before` holds the characters already read, the last one first. A number after a backslash
must not be the last thing in the text. -/
def scanText (halves : Halves) (start position : Nat) (before : List Nat) :
    List Char → Except JsonError (List Nat × Nat)
  | [] => .error (.syntaxAt start)
  | '"' :: _ => .ok (before.reverse, position + 1)
  | '\\' :: [] => .error (.syntaxAt start)
  | '\\' :: 'u' :: a :: b :: c :: d :: next :: rest =>
    match hex4? a b c d with
    | none => .error (.syntaxAt (position + 1))
    | some n =>
      if Text.isHighSurrogate n then
        match secondHalf? (next :: rest) with
        | .error () => .error (.syntaxAt (position + 7))
        | .ok (some m) =>
          scanText halves start (position + 12) (Text.joinSurrogates n m :: before) (rest.drop 5)
        | .ok none => scanText halves start (position + 6) (n :: before) (next :: rest)
      else scanText halves start (position + 6) (n :: before) (next :: rest)
  | '\\' :: 'u' :: _ => .error (.syntaxAt (position + 1))
  | '\\' :: c :: rest =>
    match simpleEscape? c with
    | some e => scanText halves start (position + 2) (e.toNat :: before) rest
    | none => .error (.syntaxAt position)
  | c :: rest =>
    if c.toNat < 0x20 then .error (.syntaxAt position)
    else scanText halves start (position + 1) (pointAt halves position c :: before) rest
termination_by s => s.length

/-! ## Numbers -/

/-- The characters of a fraction or of an exponent at the start of a text: the mark, and the digits
that must follow it. -/
def takeFraction : List Char → List Char
  | '.' :: c :: rest => if isDigit c then '.' :: c :: rest.takeWhile isDigit else []
  | _ => []

/-- The characters of an exponent at the start of a text, which are none if no digit follows. -/
def takeExponent : List Char → List Char
  | e :: rest =>
    if e = 'e' ∨ e = 'E' then
      let sign := if rest.head? = some '-' ∨ rest.head? = some '+' then rest.take 1 else []
      let ds := (rest.drop sign.length).takeWhile isDigit
      if ds.isEmpty then [] else e :: sign ++ ds
    else []
  | [] => []

/-- The digits of an integer at the start of a text: a zero alone or digits without a leading
zero. -/
def takeInteger : List Char → List Char
  | '0' :: _ => ['0']
  | s => s.takeWhile isDigit

def scanNumber? (s : List Char) : Option (Symbol × Nat) :=
  let sign := if s.head? = some '-' then ['-'] else []
  let unsigned := s.drop sign.length
  let whole := takeInteger unsigned
  if whole.isEmpty then none
  else
    let rest := unsigned.drop whole.length
    let fraction := takeFraction rest
    let exponent := takeExponent (rest.drop fraction.length)
    let numeral := sign ++ whole ++ fraction ++ exponent
    if fraction.isEmpty && exponent.isEmpty then
      let size : Int := Text.digitsValue whole
      let n := if sign.isEmpty then size else -size
      let symbol := if maxDigits < whole.length then .broken .numeralTooLong
        else .scalar (.number (.int n))
      some (symbol, numeral.length)
    else
      let x := (Double.read? numeral).getD Double.nan
      some (.scalar (.number (.float x)), numeral.length)

/-! ## Symbols -/

def words : List (List Char × Json) :=
  [("null".toList, .null), ("true".toList, .bool true), ("false".toList, .bool false),
   ("NaN".toList, .number (.float Double.nan)),
   ("Infinity".toList, .number (.float (Double.infinity false))),
   ("-Infinity".toList, .number (.float (Double.infinity true)))]

def scanWord? (s : List Char) : Option (Symbol × Nat) :=
  (words.find? fun w => w.1.isPrefixOf s).map fun w => (.scalar w.2, w.1.length)

/-- The symbol of a single character. -/
def punctuation? : Char → Option Symbol
  | '\x7b' => some .openObject
  | '\x7d' => some .closeObject
  | '[' => some .openArray
  | ']' => some .closeArray
  | ':' => some .colon
  | ',' => some .comma
  | _ => none

/-- The symbol at the start of a text, which is not empty, and the count of its characters. -/
def scanSymbol? (halves : Halves) (position : Nat) (s : List Char) : Option (Symbol × Nat) :=
  match s with
  | [] => none
  | c :: rest =>
    match punctuation? c with
    | some p => some (p, 1)
    | none =>
      if c = '"' then
        match scanText halves position (position + 1) [] rest with
        | .ok (points, after) => some (.text points, after - position)
        | .error e => some (.broken e, 1)
      else
        match scanWord? s with
        | some w => some w
        | none => scanNumber? s

/-- Whether a symbol ends the list of symbols. -/
def Symbol.isLast : Symbol → Bool
  | .broken _ | .foreign | .endOfText => true
  | _ => false

/-- The symbols of a text that starts at `position`, each with its own position. -/
def symbols (halves : Halves) (position : Nat) : List Char → List (Nat × Symbol)
  | [] => [(position, .endOfText)]
  | c :: rest =>
    if isSpace c then symbols halves (position + 1) rest
    else
      match scanSymbol? halves position (c :: rest) with
      | some (s, n) =>
        (position, s) ::
          if s.isLast then [] else symbols halves (position + n) (rest.drop (n - 1))
      | none => [(position, .foreign)]
termination_by s => s.length

end Json

end Longhand
