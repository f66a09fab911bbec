import CellScript.Numeric.Number

/-!
# Arithmetic that may fail

Colors and vectors compute with their components by the four operations alone. `Scalar` is what they
need of a component type: operations that may fail, a zero and a one. The components of running
scripts are `Number`s; rational numbers are another instance, on which the formulas are exact.
-/

namespace CellScript

/-- Numbers with operations that may fail. -/
class Scalar (α : Type) where
  add : α → α → Except NumberFault α
  sub : α → α → Except NumberFault α
  mul : α → α → Except NumberFault α
  div : α → α → Except NumberFault α
  zero : α
  one : α
  isZero : α → Bool

instance : Scalar Number where
  add := Number.add
  sub := Number.sub
  mul := Number.mul
  div := Number.div
  zero := .real 0.0
  one := .real 1.0
  isZero := Number.isZero

instance : Scalar Rat where
  add a b := .ok (a + b)
  sub a b := .ok (a - b)
  mul a b := .ok (a * b)
  div a b := if b = 0 then .error .divisionByZero else .ok (a / b)
  zero := 0
  one := 1
  isZero a := a == 0

end CellScript
