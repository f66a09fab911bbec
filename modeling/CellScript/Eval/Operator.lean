import CellScript.Eval.Cell

/-!
# Operators on built-in values

What the binary operators compute on values that are not objects. Integers stay integers, and their
quotient drops its fraction; an integer meets a real as a real; colors and vectors combine by
components with their own kind, and are scaled by numbers.
-/

namespace CellScript

namespace Exec

/-! ## Arithmetic -/

/-- The quotient of the magnitudes of two integers, negative if one of the two is. -/
def truncatedQuotient (x y : Int) : Except NumberFault Int :=
  if y == 0 then .error .divisionByZero
  else
    let q : Nat := x.natAbs / y.natAbs
    .ok (if decide (x < 0) == decide (y < 0) then q else -q)

/-- An operation on integers. Division drops the fraction, and the remainder has the sign of the
dividend. -/
def integerArithmetic (op : ArithmeticOp) (x y : Int) : Except NumberFault Int :=
  match op with
  | .add => .ok (x + y)
  | .sub => .ok (x - y)
  | .mul => .ok (x * y)
  | .div => truncatedQuotient x y
  | .mod => return x - y * (← truncatedQuotient x y)

/-- An operation on reals. -/
def realArithmetic (op : ArithmeticOp) (x y : Number) : Except NumberFault Number :=
  match op with
  | .add => x.add y
  | .sub => x.sub y
  | .mul => x.mul y
  | .div => x.div y
  | .mod => if y.isZero then .error .divisionByZero else x.rem y

/-- An operation on two colors. -/
def colorArithmetic (op : ArithmeticOp) (c d : Color Number) :
    Option (Except NumberFault (Color Number)) :=
  match op with
  | .add => some (c.add d)
  | .sub => some (c.sub d)
  | .mul => some (c.mul d)
  | .div => some (c.div d)
  | .mod => none

/-- An operation on two vectors. -/
def vectorArithmetic (op : ArithmeticOp) (v w : Vector2 Number) :
    Option (Except NumberFault (Vector2 Number)) :=
  match op with
  | .add => some (v.add w)
  | .sub => some (v.sub w)
  | .mul => some (v.mul w)
  | .div => some (v.div w)
  | .mod => none

/-- Whether an operator scales a color or vector by a number. -/
def scales : ArithmeticOp → Bool
  | .mul => true
  | .div => true
  | _ => false

/-- Go on with a number; a zero divisor is a failure of the script. -/
def ofQuotient {α : Type} (x : Except NumberFault α) (line : Option Nat) : Exec α :=
  match x with
  | .ok a => pure a
  | .error .divisionByZero => fail .divisionByZero line
  | .error f => throw (.number f)

/-- A new color from an operation that may not exist. -/
def newColor? (x : Option (Except NumberFault (Color Number))) (line : Option Nat) :
    Exec (Option Cell) :=
  match x with
  | none => return none
  | some x => return some (← newColor (← ofQuotient x line))

/-- A new vector from an operation that may not exist. -/
def newVector? (x : Option (Except NumberFault (Vector2 Number))) (line : Option Nat) :
    Exec (Option Cell) :=
  match x with
  | none => return none
  | some x => return some (← newVector (← ofQuotient x line))

/-- An arithmetic operation on built-in values, or `none` if there is no such operation. -/
def arithmetic? (op : ArithmeticOp) (a b : Cell) (line : Option Nat) : Exec (Option Cell) := do
  let x ← value a
  let y ← value b
  match x, y with
  | .integer m, .integer n =>
    return some (← newCell (.integer (← ofQuotient (integerArithmetic op m n) line)))
  | .color c, .color d =>
    let s ← storage
    newColor? (colorArithmetic op (s.color c) (s.color d)) line
  | .vector v, .vector w =>
    let s ← storage
    newVector? (vectorArithmetic op (s.vector v) (s.vector w)) line
  | .color c, _ =>
    if !y.kind.isNumeric then return none
    let n ← numberOf y line
    let c := (← storage).color c
    newColor? (if scales op then colorArithmetic op c (.replicate n) else none) line
  | _, .color d =>
    if !x.kind.isNumeric then return none
    let n ← numberOf x line
    let d := (← storage).color d
    newColor? (if scales op then colorArithmetic op (.replicate n) d else none) line
  | .vector v, _ =>
    if !y.kind.isNumeric then return none
    let n ← numberOf y line
    let v := (← storage).vector v
    newVector? (if scales op then vectorArithmetic op v (.replicate n) else none) line
  | _, .vector w =>
    if !x.kind.isNumeric then return none
    let n ← numberOf x line
    let w := (← storage).vector w
    newVector? (if scales op then vectorArithmetic op (.replicate n) w else none) line
  | x, y =>
    if x.kind.isNumeric && y.kind.isNumeric then
      let m ← numberOf x line
      let n ← numberOf y line
      return some (← newReal (← ofQuotient (realArithmetic op m n) line))
    else return none

/-! ## Comparison -/

/-- The order of two texts by code points. -/
def textOrder (s t : String) : Ordering := if s < t then .lt else if s == t then .eq else .gt

/-- Equality as the operator asks for it; it has no answer for an order. -/
def equality? (op : RelationalOp) (same : Bool) : Option Bool :=
  match op with
  | .equal => some same
  | .notEqual => some !same
  | _ => none

/-- A comparison of built-in values, or `none` if there is no such comparison. -/
def compare? (op : RelationalOp) (a b : Cell) (line : Option Nat) : Exec (Option Bool) := do
  let x ← value a
  let y ← value b
  match x, y with
  | .string s, .string t => return some (op.holds (some (textOrder s t)))
  | .boolean p, .boolean q => return equality? op (p == q)
  | .color c, .color d =>
    let s ← storage
    return equality? op ((s.color c).same (s.color d))
  | .vector v, .vector w =>
    let s ← storage
    return equality? op ((s.vector v).same (s.vector w))
  | x, y =>
    if x.kind.isNumeric && y.kind.isNumeric then
      let m ← numberOf x line
      let n ← numberOf y line
      return some (op.holds (m.order n))
    else return none

/-- Fail since there is no such operation between the kinds of two cells. -/
def unsupported {α : Type} (a b : Cell) (symbol : String) (line : Option Nat) : Exec α := do
  fail (.unsupported (← kindOf a) symbol (← kindOf b)) line

end Exec

end CellScript
