import Longhand.Text.Printable
/-!
# Quoted text

A text between quotes, on one line, with every character that cannot be shown written as an
escape. Single quotes are used unless the text holds a single quote and no double quote.
-/

namespace Longhand.Text

def singleQuote : Char := Char.ofNat 0x27

def doubleQuote : Char := Char.ofNat 0x22

/-- The quote put around a text. -/
def quoteFor (s : List Char) : Char :=
  if s.contains singleQuote && !s.contains doubleQuote then doubleQuote else singleQuote

/-- A number in `width` lower-case hexadecimal digits, the excess cut off at the left. -/
def hex (width n : Nat) : List Char :=
  (List.range width).map fun i => Nat.digitChar (n / Nat.pow 16 (width - 1 - i) % 16)

/-- One character inside the quotes `q`. -/
def escape (q c : Char) : List Char :=
  let n := c.toNat
  if c = q || c = '\\' then ['\\', c]
  else if c = '\t' then ['\\', 't']
  else if c = '\n' then ['\\', 'n']
  else if c = '\r' then ['\\', 'r']
  else if isPrintable c then [c]
  else if n < 0x100 then '\\' :: 'x' :: hex 2 n
  else if n < 0x10000 then '\\' :: 'u' :: hex 4 n
  else '\\' :: 'U' :: hex 8 n

def quote (s : String) : String :=
  let q := quoteFor s.toList
  String.ofList (q :: s.toList.flatMap (escape q) ++ [q])

end Longhand.Text
