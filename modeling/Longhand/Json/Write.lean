import Longhand.Json.Basic
/-!
# Writing JSON

The text of a JSON value on one line, without spaces. Characters that a string cannot hold are
written as escapes, all others as they are. Values without digits are written as the words that the
reader knows, and half of a pair alone as it is shown.
-/

namespace Longhand.Json

/-- The letter that stands for a character after a backslash, if there is one. -/
def escapeLetter? : Char → Option Char
  | '"' => some '"'
  | '\\' => some '\\'
  | '\x08' => some 'b'
  | '\x0c' => some 'f'
  | '\n' => some 'n'
  | '\r' => some 'r'
  | '\t' => some 't'
  | _ => none

/-- One character of a string. -/
def escape (c : Char) : List Char :=
  match escapeLetter? c with
  | some letter => ['\\', letter]
  | none =>
    if c.toNat < 0x20 then
      ['\\', 'u', '0', '0', Nat.digitChar (c.toNat / 16), Nat.digitChar (c.toNat % 16)]
    else [c]

def quoted (s : String) : List Char :=
  '"' :: s.toList.flatMap escape ++ ['"']

def numberText : Number → List Char
  | .int n => intText n
  | .float x =>
    match Double.exact x with
    | .finite d => Double.decimalText d
    | .infinity negative => (if negative then "-Infinity" else "Infinity").toList
    | .nan _ _ _ => "NaN".toList

mutual

def write : Json → List Char
  | .null => "null".toList
  | .bool b => (if b then "true" else "false").toList
  | .number n => numberText n
  | .text s => quoted s
  | .unpaired j => write j
  | .array items => '[' :: writeItems items ++ [']']
  | .object members => '\x7b' :: writeMembers members ++ ['\x7d']

def writeItems : List Json → List Char
  | [] => []
  | [j] => write j
  | j :: rest => write j ++ ',' :: writeItems rest

def writeMembers : List (String × Json) → List Char
  | [] => []
  | [(name, j)] => quoted name ++ ':' :: write j
  | (name, j) :: rest => quoted name ++ ':' :: write j ++ ',' :: writeMembers rest

end

end Longhand.Json
