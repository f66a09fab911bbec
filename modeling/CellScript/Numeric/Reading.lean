import CellScript.Numeric.Binary64
import CellScript.Text.Blank
import CellScript.Text.Numeral

/-!
# Reading numbers

`readInteger` and `readReal?` read a whole text as a number: padding around it, a sign, digits of
any script with single underscores between them, and for reals a point, a power of ten, or the words
for infinity and not-a-number. `readHex?` reads hexadecimal digits. The digits of a decimal integer
are limited in number, those of the others are not.
-/

namespace CellScript

/-- The number with the given digits in a base, most significant first. -/
def ofDigits (base : Nat) (ds : List Nat) : Nat := ds.foldl (fun n d => n * base + d) 0

/-- A sign at the front: whether it is a minus, and what follows it. -/
def splitSign : List Char → Bool × List Char
  | '-' :: rest => (true, rest)
  | '+' :: rest => (false, rest)
  | cs => (false, cs)

/-- The longest run of digits at the front, with a single underscore allowed between two of them,
and what follows. What counts as a digit is a parameter. -/
def splitRun (value? : Char → Option Nat) : List Char → List Nat × List Char
  | [] => ([], [])
  | c :: '_' :: rest =>
    match value? c, splitRun value? rest with
    | none, _ => ([], c :: '_' :: rest)
    | some d, ([], _) => ([d], '_' :: rest)
    | some d, (ds, left) => (d :: ds, left)
  | c :: rest =>
    match value? c with
    | none => ([], c :: rest)
    | some d =>
      let (ds, left) := splitRun value? rest
      (d :: ds, left)

/-- The longest run of decimal digits at the front, and what follows. -/
def splitDigits : List Char → List Nat × List Char := splitRun decimalValue?

/-- Why a text is no integer in base ten. -/
inductive NumeralFault
  | malformed
  | tooLong (digits : Nat)
  deriving DecidableEq, Repr

/-- The most digits that an integer in base ten may have, zeros at the front included. -/
def maxDigits : Nat := 4300

/-- The integer written by a whole text in base ten. Too many digits are noticed before what follows
them, but not before an underscore out of place. -/
def readInteger (cs : List Char) : Except NumeralFault Int :=
  let (negative, body) := splitSign (trimBy isPadding cs)
  let (ds, rest) := splitDigits body
  if ds.isEmpty || rest.head? == some '_' then .error .malformed
  else if maxDigits < ds.length then .error (.tooLong ds.length)
  else if rest.isEmpty then .ok (signed negative (ofDigits 10 ds))
  else .error .malformed

/-- The value of a hexadecimal digit. -/
def hexValue? (c : Char) : Option Nat :=
  if 'a' ≤ c && c ≤ 'f' then some (c.toNat - 'a'.toNat + 10)
  else if 'A' ≤ c && c ≤ 'F' then some (c.toNat - 'A'.toNat + 10)
  else decimalValue? c

/-- The number written by the hexadecimal digits behind `0x`. -/
def readHex? (cs : List Char) : Option Nat :=
  let body := match trimEndBy isPadding cs with
    | '_' :: rest => rest
    | cs => cs
  match splitRun hexValue? body with
  | ([], _) => none
  | (ds, []) => some (ofDigits 16 ds)
  | (_, _ :: _) => none

/-- The double nearest to `digits · 10 ^ exponent`, an infinity if it is too large. Exponents far
outside the range of doubles are settled by the number of digits alone. -/
def decimalNearest (negative : Bool) (digits : Nat) (exponent : Int) : Float :=
  let top := exponent + (Nat.toDigits 10 digits).length
  if digits == 0 || top < -400 then Binary64.zero negative
  else if 400 < top then Binary64.infinity negative
  else
    let nearestTo :=
      if 0 ≤ exponent then Binary64.nearest? negative (digits * pow10 exponent.toNat) 1
      else Binary64.nearest? negative digits (pow10 (-exponent).toNat)
    nearestTo.getD (Binary64.infinity negative)

/-- The double that is not a number. -/
def notANumber : Float := 0.0 / 0.0

/-- The words for values without digits, in lower case. -/
def realWord? (cs : List Char) : Option Float :=
  let word := String.ofList (cs.map Char.toLower)
  if word == "inf" || word == "infinity" then some (Binary64.infinity false)
  else if word == "nan" then some notANumber
  else none

/-- The power of ten at the end of a real: nothing, or `e`, a sign and digits. -/
def readExponent? : List Char → Option Int
  | [] => some 0
  | c :: rest =>
    if c == 'e' || c == 'E' then
      let (negative, body) := splitSign rest
      match splitDigits body with
      | ([], _) => none
      | (ds, []) => some (signed negative (ofDigits 10 ds))
      | (_, _ :: _) => none
    else none

/-- The digits before and after the point of a real, and what follows them. -/
def splitPoint (cs : List Char) : List Nat × List Nat × List Char :=
  let (whole, rest) := splitDigits cs
  match rest with
  | '.' :: more =>
    let (fraction, left) := splitDigits more
    (whole, fraction, left)
  | _ => (whole, [], rest)

/-- The double written by a whole text. -/
def readReal? (cs : List Char) : Option Float :=
  let (negative, body) := splitSign (trimBy isPadding cs)
  match realWord? body with
  | some x => some (if negative then -x else x)
  | none =>
    let (whole, fraction, left) := splitPoint body
    if whole.isEmpty && fraction.isEmpty then none
    else (readExponent? left).map fun e =>
      decimalNearest negative (ofDigits 10 (whole ++ fraction)) (e - fraction.length)

end CellScript
