import CellScript.Numeric.Layout
import CellScript.Numeric.Reading

/-!
# Numbers of two kinds

A real-valued slot of the language may hold a whole number: it stays exact, and prints without a
point, until an operation with a double turns it into one. `Number` is such a value. Operations on
two whole numbers stay whole, except division; any double makes the result a double. They fail by
`NumberFault`: a zero divisor, a value too large for its kind, not-a-number where a whole number is
wanted, a value outside the domain of the operation, or too many digits to be written.
Comparisons between the kinds are exact.

Not-a-number compares as unequal even with itself, but two slots can be found to hold the same one.
So one that is kept carries its origin (`Number.nan`), and `Number.same` goes by origins.
-/

namespace CellScript

/-- Why an operation on numbers has no result. -/
inductive NumberFault
  | divisionByZero
  | overflow
  | notANumber
  | domain
  | tooManyDigits
  deriving DecidableEq, Repr

/-- The wording of a fault. -/
def NumberFault.message : NumberFault → String
  | divisionByZero => "division by zero"
  | overflow => "number out of range"
  | notANumber => "cannot convert float NaN to integer"
  | domain => "math domain error"
  | tooManyDigits =>
    s!"Exceeds the limit ({maxDigits} digits) for integer string conversion;" ++
      " use sys.set_int_max_str_digits() to increase the limit"

/-- A whole number or a double. -/
inductive Number
  | whole (n : Int)
  | real (x : Float)
  /-- Not-a-number with a known origin: the computation it came out of. -/
  | nan (origin : Nat)
  deriving Inhabited

namespace Number

/-- The double nearest to an integer. -/
def floatOfInt (n : Int) : Except NumberFault Float :=
  match Binary64.nearest? (n < 0) n.natAbs 1 with
  | some x => .ok x
  | none => .error .overflow

/-- A number as a double. -/
def toFloat : Number → Except NumberFault Float
  | whole n => floatOfInt n
  | real x => .ok x
  | nan _ => .ok notANumber

/-- A number that is no longer whole; not-a-number keeps its origin. -/
def toReal : Number → Except NumberFault Number
  | whole n => (floatOfInt n).map real
  | x => .ok x

/-- A number without its fraction. -/
def truncate : Number → Except NumberFault Int
  | whole n => .ok n
  | real x =>
    match Binary64.ofFloat x with
    | .finite negative m e => .ok (signed negative (wholePart m e))
    | .infinite _ => .error .overflow
    | .nan => .error .notANumber
  | nan _ => .error .notANumber

/-- The text of a number. -/
def text : Number → String
  | whole n => integerText n
  | real x => realText x
  | nan _ => realText notANumber

/-- Whether a number may be written: the digits of a whole one are limited in number. -/
def isWritable : Number → Bool
  | whole n => digitCount n ≤ maxDigits
  | _ => true

/-- A text in which numbers are written, if all of them may be. -/
def written (ns : List Number) (text : String) : Except NumberFault String :=
  if ns.all isWritable then .ok text else .error .tooManyDigits

/-! ## Arithmetic -/

/-- Apply the integer operation to two whole numbers, else the operation on doubles. -/
def combine (onInt : Int → Int → Int) (onReal : Float → Float → Float) :
    Number → Number → Except NumberFault Number
  | whole a, whole b => .ok (whole (onInt a b))
  | a, b => return real (onReal (← a.toFloat) (← b.toFloat))

/-- The sum. -/
def add : Number → Number → Except NumberFault Number := combine (· + ·) (· + ·)

/-- The difference. -/
def sub : Number → Number → Except NumberFault Number := combine (· - ·) (· - ·)

/-- The product. -/
def mul : Number → Number → Except NumberFault Number := combine (· * ·) (· * ·)

/-- The quotient, always a double; that of two whole numbers is rounded once, and a zero has the
sign of the divisor. -/
def div : Number → Number → Except NumberFault Number
  | whole a, whole b =>
    if b == 0 then .error .divisionByZero
    else match Binary64.nearest? ((a < 0) != (b < 0)) a.natAbs b.natAbs with
      | some x => .ok (real x)
      | none => .error .overflow
  | a, b => do
    let x ← a.toFloat
    let y ← b.toFloat
    if y == 0.0 then .error .divisionByZero else .ok (real (x / y))

/-- The remainder of doubles with the sign of the dividend. -/
def rem (a b : Number) : Except NumberFault Number := do
  let x ← a.toFloat
  let y ← b.toFloat
  match remainder? x y with
  | some r => .ok (real r)
  | none => .error .domain

/-- The remainder by a double other than zero, with the sign of that double. -/
def mod (a : Number) (y : Float) : Except NumberFault Number :=
  return real (floorRemainder (← a.toFloat) y)

/-- The number with the opposite sign. -/
def neg : Number → Number
  | whole n => whole (-n)
  | real x => real (-x)
  | nan _ => real notANumber

/-- The number without its sign. -/
def abs : Number → Number
  | whole n => whole n.natAbs
  | real x => real x.abs
  | nan _ => real notANumber

/-! ## Comparison -/

/-- The order between an integer and a double, `none` against not-a-number. -/
def compareWhole (n : Int) (x : Float) : Option Ordering :=
  match Binary64.ofFloat x with
  | .nan => none
  | .infinite negative => some (if negative then .gt else .lt)
  | .finite negative m e =>
    let v := signed negative m
    some (if 0 ≤ e then compare n (v * pow2 e.toNat) else compare (n * pow2 (-e).toNat) v)

/-- The order between two doubles, `none` when one is not a number. -/
def compareReal (x y : Float) : Option Ordering :=
  if x < y then some .lt else if y < x then some .gt else if x == y then some .eq else none

/-- The exact order between two numbers, `none` when one is not a number. -/
def order : Number → Number → Option Ordering
  | whole a, whole b => some (compare a b)
  | whole a, real y => compareWhole a y
  | real x, whole b => (compareWhole b x).map Ordering.swap
  | real x, real y => compareReal x y
  | _, _ => none

/-- Whether two numbers are equal. -/
def equal (a b : Number) : Bool := a.order b == some .eq

/-- Whether two slots hold the same number: equal ones, or not-a-number of one origin. -/
def same : Number → Number → Bool
  | nan i, nan j => i == j
  | a, b => a.equal b

/-- Whether the first number is smaller. -/
def less (a b : Number) : Bool := a.order b == some .lt

/-- The larger of two numbers; the first unless the second is really larger. -/
def max (a b : Number) : Number := if a.less b then b else a

/-- The smaller of two numbers; the first unless the second is really smaller. -/
def min (a b : Number) : Number := if b.less a then b else a

/-- Whether a number is zero. -/
def isZero (a : Number) : Bool := a.equal (whole 0)

end Number

end CellScript
