import CellScript.Numeric.Hypotenuse
import CellScript.Numeric.Scalar

/-!
# Vectors in the plane
-/

namespace CellScript

/-- A vector over a component type. -/
structure Vector2 (α : Type) where
  x : α
  y : α
  deriving DecidableEq, Repr

/-- The two components by name. -/
inductive Axis
  | x | y
  deriving DecidableEq, Repr

namespace Vector2

variable {α : Type}

/-- The component of an axis. -/
def get (v : Vector2 α) : Axis → α
  | .x => v.x
  | .y => v.y

/-- The vector with another component on an axis. -/
def set (v : Vector2 α) (k : Axis) (n : α) : Vector2 α :=
  match k with
  | .x => { v with x := n }
  | .y => { v with y := n }

/-- Combine two vectors component by component. -/
def zipM (f : α → α → Except NumberFault α) (v w : Vector2 α) :
    Except NumberFault (Vector2 α) := do
  return ⟨← f v.x w.x, ← f v.y w.y⟩

/-- A vector with the same number on both axes. -/
def replicate (n : α) : Vector2 α := ⟨n, n⟩

section

variable [Scalar α]

/-- The sum by components. -/
def add : Vector2 α → Vector2 α → Except NumberFault (Vector2 α) := zipM Scalar.add

/-- The difference by components. -/
def sub : Vector2 α → Vector2 α → Except NumberFault (Vector2 α) := zipM Scalar.sub

/-- The product by components. -/
def mul : Vector2 α → Vector2 α → Except NumberFault (Vector2 α) := zipM Scalar.mul

/-- The quotient by components. -/
def div : Vector2 α → Vector2 α → Except NumberFault (Vector2 α) := zipM Scalar.div

/-- The scalar product. -/
def dot (v w : Vector2 α) : Except NumberFault α := do
  Scalar.add (← Scalar.mul v.x w.x) (← Scalar.mul v.y w.y)

/-- The signed area between two vectors. -/
def cross (v w : Vector2 α) : Except NumberFault α := do
  Scalar.sub (← Scalar.mul v.x w.y) (← Scalar.mul v.y w.x)

end

/-! ## Vectors of numbers -/

/-- The vector in the opposite direction. -/
def neg (v : Vector2 Number) : Vector2 Number := ⟨v.x.neg, v.y.neg⟩

/-- The zero vector. -/
def zero : Vector2 Number := ⟨.real 0.0, .real 0.0⟩

/-- The vector turned left by a right angle. -/
def perpendicular (v : Vector2 Number) : Vector2 Number := ⟨v.y.neg, v.x⟩

/-- Whether both components are zero. -/
def isZero (v : Vector2 Number) : Bool := v.x.isZero && v.y.isZero

/-- Whether both components are the same. -/
def same (v w : Vector2 Number) : Bool := v.x.same w.x && v.y.same w.y

/-- The length. -/
def length (v : Vector2 Number) : Except NumberFault Number := do
  return .real (hypotenuse (← v.x.toFloat) (← v.y.toFloat))

/-- The square of the length. -/
def lengthSquared (v : Vector2 Number) : Except NumberFault Number := v.dot v

/-- Whether the square of the length is one up to a millionth. -/
def isUnit (v : Vector2 Number) : Except NumberFault Bool := do
  let off ← (← v.lengthSquared).sub (.real 1.0)
  return off.abs.less (.real 1e-6)

/-- The vector of length one in the same direction. -/
def normalize (v : Vector2 Number) : Except NumberFault (Vector2 Number) := do
  v.div (replicate (← v.length))

/-- The cosine and sine of an angle in radians; an infinite angle has none. -/
def cosSin (phi : Number) : Except NumberFault (Number × Number) := do
  let x ← phi.toFloat
  if x.isInf then .error .domain else .ok (.real x.cos, .real x.sin)

/-- The vector turned by an angle in radians. -/
def rotate (v : Vector2 Number) (phi : Number) : Except NumberFault (Vector2 Number) := do
  let (c, s) ← cosSin phi
  let x ← (← v.x.mul c).sub (← v.y.mul s)
  let y ← (← v.y.mul c).add (← v.x.mul s)
  return ⟨x, y⟩

/-- The signed angle in radians from one vector to another. -/
def angle (v w : Vector2 Number) : Except NumberFault Number := do
  let sine ← v.cross w
  let cosine ← v.dot w
  return .real (Float.atan2 (← sine.toFloat) (← cosine.toFloat))

/-- The text of a vector. -/
def text (v : Vector2 Number) : String := s!"<{v.x.text}, {v.y.text}>"

end Vector2

end CellScript
