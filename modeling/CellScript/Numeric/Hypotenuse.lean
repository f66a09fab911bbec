import CellScript.Numeric.Binary64

/-!
# The hypotenuse in doubles

The length of a vector is the root of a sum of two squares. Both legs are first scaled by a power of
two that brings the longer one between a half and one. Each of them is split into two halves of its
digits, so that the products of halves are exact, and these are summed up together with what the
sum's roundings lose (`SquareSum`). The root is then corrected once by what its own square leaves of
the sum. The result is nearly always the double nearest to the length, and next to it otherwise.

Legs so short that the scale would be beyond the doubles are taken relative to the longer one
(`shortHypotenuse`).
-/

namespace CellScript

/-- A double as the sum of two with at most 26 binary digits each, the larger first. -/
def halves (x : Float) : Float × Float :=
  let t := x * 134217729.0
  let high := t - (t - x)
  (high, x - high)

/-- What is lost when a term is added to a larger total. -/
def lostTo (total term : Float) : Float := total - (total + term) + term

/-- One more than a sum of squares of doubles below one, with what its roundings have lost. The
losses are kept apart for the three products that make up a square. -/
structure SquareSum where
  total : Float
  high : Float
  mixed : Float
  low : Float

namespace SquareSum

/-- The sum of no squares. -/
def empty : SquareSum := ⟨1.0, 0.0, 0.0, 0.0⟩

/-- The sum with a further square. The square of the low half is too small for the total. -/
def add (s : SquareSum) (x : Float) : SquareSum :=
  let (a, b) := halves x
  let total := s.total + a * a
  { total := total + 2.0 * a * b
    high := s.high + lostTo s.total (a * a)
    mixed := s.mixed + lostTo total (2.0 * a * b)
    low := s.low + b * b }

/-- The sum less a square. -/
def sub (s : SquareSum) (x : Float) : SquareSum :=
  let (a, b) := halves x
  let total := s.total + -(a * a)
  let total' := total + -(2.0 * a * b)
  { total := total' + -(b * b)
    high := s.high + lostTo s.total (-(a * a))
    mixed := s.mixed + lostTo total (-(2.0 * a * b))
    low := s.low + lostTo total' (-(b * b)) }

/-- The sum of the squares. -/
def value (s : SquareSum) : Float := s.total - 1.0 + (s.high + s.mixed + s.low)

/-- The root of the sum, corrected once. -/
def root (s : SquareSum) : Float :=
  let h := s.value.sqrt
  h + (s.sub h).value / (2.0 * h)

end SquareSum

/-- The power of two that a finite positive double is below, and not below its half. -/
def Binary64.order (significand : Nat) (exponent : Int) : Int := significand.log2 + 1 + exponent

/-- The length of the hypotenuse over legs of which the longer is below `2 ^ order`. -/
def scaledHypotenuse (x y : Float) (order : Int) : Float :=
  let scale := Binary64.scaled false 1 (-order)
  ((SquareSum.empty.add (x * scale)).add (y * scale)).root / scale

/-- The length of the hypotenuse over short legs: the longer leg times the root of the sum of the
squared ratios to it. The sum starts at one, and what its roundings lose is added at the end. -/
def shortHypotenuse (x y long : Float) : Float :=
  let a := (x / long) * (x / long)
  let b := (y / long) * (y / long)
  let lost := lostTo 1.0 a + lostTo (1.0 + a) b
  long * (1.0 + a + b - 1.0 + lost).sqrt

/-- Scales of orders below this one are beyond the doubles. -/
def minOrder : Int := -1023

/-- The length of the hypotenuse over the legs `x` and `y`. -/
def hypotenuse (x y : Float) : Float :=
  match Binary64.ofFloat x, Binary64.ofFloat y with
  | .infinite _, _ => Binary64.infinity false
  | _, .infinite _ => Binary64.infinity false
  | .nan, _ => x
  | _, .nan => y
  | .finite _ m e, .finite _ n f =>
    let (long, significand, exponent) :=
      if x.abs < y.abs then (y.abs, n, f) else (x.abs, m, e)
    let order := Binary64.order significand exponent
    if significand == 0 then Binary64.zero false
    else if order < minOrder then shortHypotenuse x.abs y.abs long
    else scaledHypotenuse x.abs y.abs order

end CellScript
