/-!
# Blank characters

The characters that may stand between the parts of an expression, and trimming. Two classes are
needed: `isWhiteSpace` is the Unicode property of that name, and `isBlank` adds the four
information separators, which also separate words.
-/

namespace Longhand.Text

/-- The Unicode property `White_Space`: 25 characters. -/
def isWhiteSpace (c : Char) : Bool :=
  let n := c.toNat
  (0x09 ≤ n && n ≤ 0x0D) || n = 0x20 || n = 0x85 || n = 0xA0 || n = 0x1680 ||
    (0x2000 ≤ n && n ≤ 0x200A) || n = 0x2028 || n = 0x2029 || n = 0x202F || n = 0x205F ||
    n = 0x3000

/-- White space and the information separators U+001C to U+001F. -/
def isBlank (c : Char) : Bool :=
  isWhiteSpace c || (0x1C ≤ c.toNat && c.toNat ≤ 0x1F)

/-- The text without the characters of a class at its end. -/
def trimEndWhile (p : Char → Bool) (s : List Char) : List Char :=
  (s.reverse.dropWhile p).reverse

def trimWhile (p : Char → Bool) (s : List Char) : List Char :=
  trimEndWhile p (s.dropWhile p)

def trim (s : List Char) : List Char :=
  trimWhile isBlank s

end Longhand.Text
