import CellScript.Eval.Cell

/-!
# What the standard functions and built-in methods do

Every function reads its arguments by name, as a script would. Failures carry no line here: the call
gives them its own. A function without a result gives `none`. The text of a value may have to run a
script, so the way to find it is a parameter.
-/

namespace CellScript

/-! ## Real functions -/

/-- The circle number. -/
def pi : Float := 3.141592653589793

/-- A double that is a number unless the argument was none. -/
def defined (x y : Float) : Except NumberFault Float :=
  if y.isNaN && !x.isNaN then .error .domain else .ok y

/-- A positive number as a fraction, at least one half and below one, times a power of two. The
fraction is rounded to a double. -/
def fractionAndPower (n : Nat) : Float × Nat :=
  let e := n.log2 + 1
  match Binary64.nearest? false n (pow2 e) with
  | some x => if x < 1.0 then (x, e) else (0.5, e + 1)
  | none => (0.5, e + 1)

/-- The logarithm of a whole number; one beyond the doubles is split into a fraction and a power of
two. -/
def logWhole (n : Int) : Except NumberFault Float :=
  if n ≤ 0 then .error .domain
  else match Number.floatOfInt n with
    | .ok x => .ok x.log
    | .error _ =>
      let (x, e) := fractionAndPower n.toNat
      .ok (x.log + (2.0 : Float).log * Float.ofNat e)

/-- The value of a real function. -/
def RealFunction.apply (f : RealFunction) (n : Number) : Except NumberFault Float := do
  match f, n with
  | .log, .whole k => logWhole k
  | f, n =>
    let x ← n.toFloat
    match f with
    | .sqrt => defined x x.sqrt
    | .log => if x ≤ 0.0 then .error .domain else .ok x.log
    | .sin => defined x x.sin
    | .cos => defined x x.cos
    | .tan => defined x x.tan
    | .asin => defined x x.asin
    | .acos => defined x x.acos
    | .atan => .ok x.atan
    | .toDegrees => .ok (x * (180.0 / pi))
    | .toRadians => .ok (x * (pi / 180.0))

namespace Exec

/-! ## Arguments -/

/-- The argument bound to a parameter. -/
def argument (name : String) : Exec Cell := getName name none

/-- An argument as a real. -/
def realArgument (name : String) : Exec Number := do asReal (← argument name) none

/-- An argument as a number: an integer stays whole. -/
def numericArgument (name : String) : Exec Number := do
  let c ← argument name
  match ← value c with
  | .integer n => return .whole n
  | _ => asReal c none

/-- A new cell as a result. -/
def result (v : Value) : Exec (Option Cell) := return some (← newCell v)

/-- A new cell with a real as a result. -/
def realResult (x : Number) : Exec (Option Cell) := return some (← newReal x)

/-! ## Standard functions -/

/-- The value of a real function of the arguments, or a domain error that names the function. -/
def functionResult (name : String) (x : Except NumberFault Float) : Exec (Option Cell) :=
  match x with
  | .ok y => realResult (.real y)
  | .error _ => fail (.mathDomain name) none

/-- A number between two bounds, both included, in either order. -/
def randomBetween (a b : Int) : Exec Int := do
  let low := min a b
  let width := (max a b - low).toNat
  modifyGet fun s =>
    let (k, gen) := randNat s.random 0 width
    (low + k, { s with random := gen })

/-- A text as an integer, or a complaint. -/
def integerOfText (t : String) : Exec (Option Cell) :=
  match readInteger (trim t.toList) with
  | .ok n => result (.integer n)
  | .error _ => fail (.notAnInteger t) none

/-- A text as a real, or a complaint. -/
def realOfText (t : String) : Exec (Option Cell) :=
  match readReal? (trim t.toList) with
  | some x => realResult (.real x)
  | none => fail (.notAReal t) none

/-- Run a standard function. -/
def runBuiltin (text : Cell → Exec String) (f : Builtin) : Exec (Option Cell) := do
  match f with
  | .print =>
    print (← text (← argument "msg"))
    return none
  | .error => fail (.custom (← text (← argument "msg"))) none
  | .toInt =>
    let c ← argument "x"
    match ← value c with
    | .string t => integerOfText t
    | _ => result (.integer (← asInteger c none))
  | .toReal =>
    let c ← argument "x"
    match ← value c with
    | .string t => realOfText t
    | _ => realResult (← asReal c none)
  | .random =>
    let k ← randomBetween 0 (pow2 53 - 1)
    realResult (.real (Binary64.scaled false k.toNat (-53)))
  | .randomInt =>
    let a ← asInteger (← argument "a") none
    let b ← asInteger (← argument "b") none
    result (.integer (← randomBetween a b))
  | .real f => functionResult f.name (f.apply (← realArgument "x"))
  | .atan2 =>
    let x ← realArgument "x"
    let y ← realArgument "y"
    functionResult "atan2" (do return Float.atan2 (← x.toFloat) (← y.toFloat))
  | .min =>
    let x ← numericArgument "x"
    result (.ofNumber (x.min (← numericArgument "y")))
  | .max =>
    let x ← numericArgument "x"
    result (.ofNumber (x.max (← numericArgument "y")))
  | .clamp =>
    let x ← numericArgument "x"
    let low ← numericArgument "lo"
    let high ← numericArgument "hi"
    result (.ofNumber ((x.max low).min high))
  | .colorFromHue =>
    let h ← realArgument "h"
    return some (← newColor (← ofNumber (Color.ofHsv h (.whole 1) (.whole 1))))
  | .colorFromHsv =>
    let h ← realArgument "h"
    let s ← realArgument "s"
    let v ← realArgument "v"
    return some (← newColor (← ofNumber (Color.ofHsv h s v)))
  | .extract part =>
    let r ← asColor (← argument "c") none
    let (h, s, v) ← ofNumber ((← storage).color r).toHsv
    match part with
    | .hue => realResult h
    | .saturation => realResult s
    | .brightness => realResult v
  | .log f =>
    log f.level "velox.script" (← text (← argument "msg"))
    return none

/-! ## Methods -/

/-- Change a color, as far as that goes, and give it back. -/
def changeColor (r : ColorRef) (change : Color.Change Number Unit) : Exec (Option Cell) := do
  match change ((← storage).color r) with
  | .ok _ c =>
    let c ← keepColor c
    updateStore (·.setColor r c)
    result (.color r)
  | .error f c =>
    let c ← keepColor c
    updateStore (·.setColor r c)
    throw (.number f)

/-- Run a method of a color. Methods that change the color give it back, not a copy. -/
def runColorMethod (m : ColorMethod) (r : ColorRef) : Exec (Option Cell) := do
  match m with
  | .saturate =>
    updateStore fun s => s.setColor r (s.color r).saturate
    result (.color r)
  | .lerp =>
    let other ← asColor (← argument "other") none
    let t ← realArgument "t"
    let s ← storage
    return some (← newColor (← ofNumber ((s.color r).lerp (s.color other) t)))
  | .blend =>
    let other ← asColor (← argument "other") none
    let top := (← storage).color other
    changeColor r (Color.blend fun now => if other == r then now else top)

/-- Change a vector and give it back. -/
def changeVector (r : VectorRef) (f : Vector2 Number → Except NumberFault (Vector2 Number)) :
    Exec (Option Cell) := do
  let v ← keepVector (← ofNumber (f ((← storage).vector r)))
  updateStore (·.setVector r v)
  result (.vector r)

/-- A number made of a vector and the vector that an argument holds. -/
def withVector (r : VectorRef) (f : Vector2 Number → Vector2 Number → Except NumberFault Number) :
    Exec (Option Cell) := do
  let other ← asVector (← argument "o") none
  let s ← storage
  realResult (← ofNumber (f (s.vector r) (s.vector other)))

/-- Run a method of a vector. Methods that change the vector give it back, not a copy. -/
def runVectorMethod (m : VectorMethod) (r : VectorRef) : Exec (Option Cell) := do
  match m with
  | .setZero => changeVector r fun _ => .ok .zero
  | .isZero => result (.boolean ((← storage).vector r).isZero)
  | .isUnitVector => result (.boolean (← ofNumber ((← storage).vector r).isUnit))
  | .flip => changeVector r fun v => .ok v.neg
  | .normalize => changeVector r (·.normalize)
  | .perpendicularize => changeVector r fun v => .ok v.perpendicular
  | .length => realResult (← ofNumber ((← storage).vector r).length)
  | .lengthSquared => realResult (← ofNumber ((← storage).vector r).lengthSquared)
  | .rotate =>
    let phi ← realArgument "phi"
    changeVector r (·.rotate phi)
  | .rotateDeg =>
    let phi ← ofNumber (RealFunction.apply .toRadians (← realArgument "phi"))
    changeVector r (·.rotate (.real phi))
  | .dot => withVector r Vector2.dot
  | .cross => withVector r Vector2.cross
  | .angle => withVector r Vector2.angle

/-- Add a copy of a cell at the end of a list. -/
def append (r : ListRef) (c : Cell) : Exec Unit := do
  let d ← copyCell c
  updateStore (·.pushList r d)

/-- Run a method of a list. -/
def runListMethod (m : ListMethod) (r : ListRef) : Exec (Option Cell) := do
  match m with
  | .size => result (.integer ((← storage).list r).size)
  | .append =>
    append r (← argument "x")
    return none

end Exec

end CellScript
