import CellScript.Numeric.Shortest

/-!
# How numbers are written

Whole numbers are written in base ten. Reals are written with the fewest digits that read back,
laid out by one record of decisions, `RealFormat`: between two decimal exponents positionally,
elsewhere with a power of ten.
-/

namespace CellScript

/-- The text of an integer in base ten. -/
def integerText (n : Int) : String :=
  match n with
  | .ofNat k => String.ofList (Nat.toDigits 10 k)
  | .negSucc k => String.ofList ('-' :: Nat.toDigits 10 (k + 1))

/-- The number of digits of an integer in base ten. -/
def digitCount (n : Int) : Nat := (Nat.toDigits 10 n.natAbs).length

/-- The decisions left open by the digits of a real. -/
structure RealFormat where
  /-- The least decimal exponent that is written positionally. -/
  leastPositional : Int
  /-- The first decimal exponent that is written as a power of ten again. -/
  firstScientific : Int
  /-- What follows a positional whole number. -/
  wholeMark : List Char
  /-- The least number of digits of an exponent. -/
  exponentWidth : Nat
  infinity : List Char
  nan : List Char

/-- Reals are positional from `0.0001` up to below `10 ^ 16`, a whole one keeps `.0`, and an
exponent has a sign and two digits. -/
def realFormat : RealFormat where
  leastPositional := -4
  firstScientific := 16
  wholeMark := ['.', '0']
  exponentWidth := 2
  infinity := ['i', 'n', 'f']
  nan := ['n', 'a', 'n']

namespace RealFormat

/-- Zeros in front of a text up to a width. -/
def padded (width : Nat) (cs : List Char) : List Char :=
  List.replicate (width - cs.length) '0' ++ cs

/-- A mantissa with its point after the first digit. -/
def pointAfterFirst : List Char → List Char
  | [] => []
  | [c] => [c]
  | c :: cs => c :: '.' :: cs

/-- The text of the positive decimal with the given digits, whose first digit stands at the power
`top` of ten. -/
def layout (f : RealFormat) (ds : List Char) (top : Int) : List Char :=
  if f.leastPositional ≤ top && top < f.firstScientific then
    if top < 0 then '0' :: '.' :: (List.replicate (-top - 1).toNat '0' ++ ds)
    else
      let whole := top.toNat + 1
      if ds.length ≤ whole then ds ++ List.replicate (whole - ds.length) '0' ++ f.wholeMark
      else ds.take whole ++ '.' :: ds.drop whole
  else
    let sign := if top < 0 then '-' else '+'
    pointAfterFirst ds ++ 'e' :: sign :: padded f.exponentWidth (Nat.toDigits 10 top.natAbs)

/-- The text of a double. -/
def write (f : RealFormat) (x : Float) : String :=
  let withSign (negative : Bool) (cs : List Char) :=
    String.ofList (if negative then '-' :: cs else cs)
  match Binary64.ofFloat x with
  | .nan => String.ofList f.nan
  | .infinite negative => withSign negative f.infinity
  | .finite negative m e =>
    if m == 0 then withSign negative ('0' :: f.wholeMark)
    else
      let d := Shortest.digits m e
      let ds := Nat.toDigits 10 d.digits
      withSign negative (f.layout ds (d.exponent + ds.length - 1))

end RealFormat

/-- The text of a double in the format of this language. -/
def realText (x : Float) : String := realFormat.write x

end CellScript
