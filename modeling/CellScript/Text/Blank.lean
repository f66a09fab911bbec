import CellScript.Text.Boundary

/-!
# White space

`isBlank` is the white space that trimming removes. The language itself separates tokens by four of
these characters only (`isGap`), and numbers may be padded by all but four others (`isPadding`).
-/

namespace CellScript

/-- Where runs of white space begin and end. -/
def blankBounds : List Nat :=
  [0x9, 0xe, 0x1c, 0x21, 0x85, 0x86, 0xa0, 0xa1, 0x1680, 0x1681, 0x2000, 0x200b, 0x2028, 0x202a,
   0x202f, 0x2030, 0x205f, 0x2060, 0x3000, 0x3001]

/-- Whether trimming removes a character. -/
def isBlank (c : Char) : Bool := within blankBounds c.toNat

/-- Whether a character separates tokens. -/
def isGap (c : Char) : Bool := c == ' ' || c == '\t' || c == '\r' || c == '\n'

/-- Whether a character may stand around a number: white space other than the information
separators. -/
def isPadding (c : Char) : Bool := isBlank c && !(0x1c ≤ c.toNat && c.toNat ≤ 0x1f)

/-- A text without the characters of a class at its end. -/
def trimEndBy (p : Char → Bool) (cs : List Char) : List Char := (cs.reverse.dropWhile p).reverse

/-- A text without the characters of a class at either end. -/
def trimBy (p : Char → Bool) (cs : List Char) : List Char := trimEndBy p (cs.dropWhile p)

/-- A text without the white space at its end. -/
def trimEnd (cs : List Char) : List Char := trimEndBy isBlank cs

/-- A text without the white space at either end. -/
def trim (cs : List Char) : List Char := trimBy isBlank cs

end CellScript
