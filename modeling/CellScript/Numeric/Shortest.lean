import CellScript.Numeric.Binary64

/-!
# The fewest digits that read back

`Shortest.digits` finds, for a positive double, the decimal with the fewest significant digits
that rounds to that double, and among those the nearest one. The search runs over grids of
one, two, … seventeen digits: on each grid only the two neighbours of the value can qualify.
-/

namespace CellScript

/-- A positive decimal `digits · 10 ^ exponent`, where `digits` does not end in zero. -/
structure Decimal where
  digits : Nat
  exponent : Int
  deriving DecidableEq, Repr

namespace Shortest

/-- A positive quotient of natural numbers scaled by `10 ^ -k`. -/
def scaleDown (num den : Nat) (k : Int) : Nat × Nat :=
  if 0 ≤ k then (num, den * pow10 k.toNat) else (num * pow10 (-k).toNat, den)

/-- The floor of the decimal logarithm of `num / den`, both positive: an estimate from the binary
logarithm, raised while a power of ten still fits. -/
def logTen (num den : Nat) : Int :=
  let start := (Binary64.logRatio num den * 30103).fdiv 100000 - 1
  raise 4 start
where
  /-- Raise the exponent as long as the power of ten above it is still not larger. -/
  raise : Nat → Int → Int
    | 0, k => k
    | n + 1, k =>
      let (a, b) := scaleDown num den (k + 1)
      if b ≤ a then raise n (k + 1) else k

/-- The reals that round to a given double: `low` to `high` over a common denominator, with the
ends when `closed`. -/
structure Interval where
  low : Nat
  high : Nat
  den : Nat
  closed : Bool

/-- The reals that round to `m · 2 ^ e`. Below a power of two the gap is half as wide. -/
def interval (m : Nat) (e : Int) : Interval :=
  let narrow := m == pow2 52 && Binary64.minExponent < e
  let low := if narrow then 4 * m - 1 else 4 * m - 2
  let high := 4 * m + 2
  if 0 ≤ e then
    ⟨low * pow2 e.toNat, high * pow2 e.toNat, 4, m % 2 == 0⟩
  else
    ⟨low, high, 4 * pow2 (-e).toNat, m % 2 == 0⟩

/-- Whether `n · 10 ^ k` lies in the interval. -/
def Interval.holds (i : Interval) (n : Nat) (k : Int) : Bool :=
  let (a, b) := if 0 ≤ k then (n * pow10 k.toNat, 1) else (n, pow10 (-k).toNat)
  if i.closed then i.low * b ≤ a * i.den && a * i.den ≤ i.high * b
  else i.low * b < a * i.den && a * i.den < i.high * b

/-- The qualifying neighbour of `num / den` on the grid `10 ^ k`: the nearer of two, and of two
equally near ones the even one. -/
def onGrid (i : Interval) (num den : Nat) (k : Int) : Option Nat :=
  let (a, b) := scaleDown num den k
  let below := a / b
  let r := a % b
  match i.holds below k, i.holds (below + 1) k with
  | true, true =>
    if 2 * r < b then some below
    else if b < 2 * r then some (below + 1)
    else some (below + below % 2)
  | true, false => some below
  | false, true => some (below + 1)
  | false, false => none

/-- Drop the zeros at the end of a number, at most `fuel` of them. -/
def dropZeros : Nat → Nat → Int → Decimal
  | 0, n, k => ⟨n, k⟩
  | fuel + 1, n, k => if n % 10 == 0 && n != 0 then dropZeros fuel (n / 10) (k + 1) else ⟨n, k⟩

/-- Try the grids of `18 - left` up to seventeen digits below the power of ten `top`. -/
def search (i : Interval) (num den : Nat) (top : Int) : Nat → Decimal
  | 0 => ⟨0, 0⟩
  | left + 1 =>
    let k := top - (17 - left : Int) + 1
    match onGrid i num den k with
    | some n => dropZeros 20 n k
    | none => search i num den top left

/-- The shortest decimal that reads back as the positive double `m · 2 ^ e`. -/
def digits (m : Nat) (e : Int) : Decimal :=
  let (num, den) := if 0 ≤ e then (m * pow2 e.toNat, 1) else (m, pow2 (-e).toNat)
  search (interval m e) num den (logTen num den) 17

end Shortest

end CellScript
