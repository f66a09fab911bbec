import CellScript.Numeric.Power

/-!
# Doubles as exact numbers

A double is a sign, a whole significand and a power of two, or an infinity, or no number at all.
This module takes doubles apart (`Binary64.ofFloat`) and finds the double nearest to an exact
quotient (`nearest?`), so that conversions and remainders are computed in whole numbers and rounded
once.
-/

namespace CellScript

/-- The natural number nearest to `num / den`; a half goes to the even neighbour. -/
def roundDiv (num den : Nat) : Nat :=
  let q := num / den
  let r := num % den
  if 2 * r < den then q
  else if den < 2 * r then q + 1
  else q + q % 2

/-- What a double stands for: `± significand · 2 ^ exponent`, an infinity, or not a number. -/
inductive Binary64
  | finite (negative : Bool) (significand : Nat) (exponent : Int)
  | infinite (negative : Bool)
  | nan
  deriving DecidableEq, Repr

namespace Binary64

/-- The exponent of the smallest positive double. -/
def minExponent : Int := -1074

/-- The parts of a double. -/
def ofFloat (x : Float) : Binary64 :=
  let bits := x.toBits.toNat
  let negative := bits / pow2 63 == 1
  let field : Nat := bits / pow2 52 % pow2 11
  let fraction := bits % pow2 52
  if field == 2047 then (if fraction == 0 then infinite negative else nan)
  else if field == 0 then finite negative fraction minExponent
  else finite negative (pow2 52 + fraction) ((field : Int) + minExponent - 1)

/-- The double with the given sign, significand and exponent; a significand of `2 ^ 53` carries
into the exponent by itself. -/
def assemble (negative : Bool) (significand : Nat) (exponent : Int) : Float :=
  let magnitude := (exponent - minExponent).toNat * pow2 52 + significand
  Float.ofBits (magnitude + if negative then pow2 63 else 0).toUInt64

/-- A zero of the given sign. -/
def zero (negative : Bool) : Float := assemble negative 0 minExponent

/-- An infinity of the given sign. -/
def infinity (negative : Bool) : Float :=
  Float.ofBits (2047 * pow2 52 + if negative then pow2 63 else 0).toUInt64

/-- The floor of the binary logarithm of `num / den`, both positive. -/
def logRatio (num den : Nat) : Int :=
  let k : Int := (num.log2 : Int) - den.log2
  let below := if 0 ≤ k then num < den * pow2 k.toNat else num * pow2 (-k).toNat < den
  if below then k - 1 else k

/-- The double nearest to `± num / den` with ties to even, or `none` beyond the largest double. -/
def nearest? (negative : Bool) (num den : Nat) : Option Float :=
  if num == 0 then some (zero negative)
  else
    let e := max (logRatio num den - 52) minExponent
    let m :=
      if 0 ≤ e then roundDiv num (den * pow2 e.toNat) else roundDiv (num * pow2 (-e).toNat) den
    if (e - minExponent).toNat * pow2 52 + m < 2047 * pow2 52 then some (assemble negative m e)
    else none

/-- The double nearest to `± significand · 2 ^ exponent`, or an infinity. -/
def scaled (negative : Bool) (significand : Nat) (exponent : Int) : Float :=
  let nearestTo := if 0 ≤ exponent then nearest? negative (significand * pow2 exponent.toNat) 1
    else nearest? negative significand (pow2 (-exponent).toNat)
  nearestTo.getD (infinity negative)

end Binary64

/-! ## Operations on doubles that are exact before one rounding -/

/-- The whole part of `significand · 2 ^ exponent`. -/
def wholePart (significand : Nat) (exponent : Int) : Nat :=
  if 0 ≤ exponent then significand * pow2 exponent.toNat else significand / pow2 (-exponent).toNat

/-- A magnitude with its sign. -/
def signed (negative : Bool) (n : Nat) : Int := if negative then -n else n

/-- The remainder of `x / y` with the quotient rounded toward zero and the sign of `x`.
It is `none` when `x` is infinite or `y` is zero. -/
def remainder? (x y : Float) : Option Float :=
  match Binary64.ofFloat x, Binary64.ofFloat y with
  | .nan, _ => some x
  | _, .nan => some y
  | .infinite _, _ => none
  | .finite .., .infinite _ => some x
  | .finite s m e, .finite _ n f =>
    if n == 0 then none
    else
      let low := min e f
      let r := (m * pow2 (e - low).toNat) % (n * pow2 (f - low).toNat)
      some (Binary64.scaled s r low)

/-- The remainder of `x / y`, `y` finite and not zero, with the quotient rounded down: it has the
sign of `y`. An infinite `x` leaves no number. -/
def floorRemainder (x y : Float) : Float :=
  match remainder? x y with
  | none => 0.0 / 0.0
  | some r =>
    if r == 0.0 then Binary64.zero (y < 0.0)
    else if (y < 0.0) == (r < 0.0) then r else r + y

end CellScript
