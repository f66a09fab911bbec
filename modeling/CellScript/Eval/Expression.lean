import CellScript.Eval.Call

/-!
# Evaluating expressions

Every expression stands for a cell: places for the cell that is there, everything else for a new
one.
-/

namespace CellScript

namespace Exec

/-- Evaluate expressions in order. -/
def evaluateAll (evaluate : Expr → Exec Cell) : List Expr → Exec (List Cell)
  | [] => return []
  | e :: es => do
    let c ← evaluate e
    let cs ← evaluateAll evaluate es
    return c :: cs

/-- Cells as reals, in order. -/
def realsOf (line : Option Nat) : List Cell → Exec (List Number)
  | [] => return []
  | c :: cs => do
    let x ← asReal c line
    let xs ← realsOf line cs
    return x :: xs

/-- The color with the given components: one packed number, or channels with a full alpha unless it
is given. -/
def colorOf (cells : List Cell) (line : Option Nat) : Exec (Color Number) := do
  match cells with
  | [c] =>
    let n ← asInteger c line
    ofNumber (Color.unpack n)
  | cs =>
    let xs ← realsOf line cs
    let at_ (i : Nat) (default : Float) := xs[i]?.getD (.real default)
    return ⟨at_ 0 0.0, at_ 1 0.0, at_ 2 0.0, at_ 3 1.0⟩

/-- Bind a new name to a new undefined cell. -/
def newName (name : String) (line : Option Nat) : Exec Cell := do
  let c ← newCell .undefined
  addName name c line
  return c

/-- The cell of a name; as a location a missing name is made. -/
def evaluateName (name : String) (use : Use) (line : Nat) : Exec Cell := do
  match ← find? name with
  | some c => return c
  | none =>
    match use with
    | .operand => fail (.unknownIdentifier name) (some line)
    | .location => newName name (some line)

/-- The cell of a member; as a location a missing member is made. -/
def evaluateMember (owner : Cell) (name : String) (use : Use) (line : Nat) : Exec Cell := do
  match ← member? owner name with
  | some c => return c
  | none =>
    match use with
    | .operand => fail (.unknownField name) (some line)
    | .location => newMember owner name (some line)

/-- Evaluate the elements of a list, each into a cell of its own. -/
def evaluateElements (evaluate : Expr → Exec Cell) : List Expr → Exec (List Cell)
  | [] => return []
  | e :: es => do
    let c ← copyCell (← evaluate e)
    let cs ← evaluateElements evaluate es
    return c :: cs

/-- A new list of what expressions stand for. -/
def evaluateList (evaluate : Expr → Exec Cell) (es : List Expr) : Exec Cell := do
  newList (← evaluateElements evaluate es).toArray

/-- Make an object and run the method named like its type. -/
def evaluateNew (self : Interp) (typeName : String) (arguments : List Expr) (line : Nat) :
    Exec Cell := do
  match ← findType? typeName with
  | none => fail (.unknownType typeName) (some line)
  | some t =>
    if t.isInstant then fail (.instantWithNew typeName) (some line)
    let obj ← newObject t
    let args ← evaluateAll self.evaluate arguments
    match ← method? obj typeName with
    | some m =>
      let _ ← callCell self m args (some line)
      return obj
    | none => if args.isEmpty then return obj else fail (.noConstructor typeName) (some line)

/-- Evaluate an expression. -/
def evaluateWith (self : Interp) (e : Expr) : Exec Cell := do
  match e with
  | .integer n _ => newCell (.integer n)
  | .real x _ => newCell (.real (.real x))
  | .string s _ => newCell (.string s)
  | .boolean b _ => newCell (.boolean b)
  | .undefined _ => newCell .undefined
  | .color es line =>
    let cells ← evaluateAll self.evaluate es
    newColor (← colorOf cells (some line))
  | .vector x y line =>
    let x ← asReal (← self.evaluate x) (some line)
    let y ← asReal (← self.evaluate y) (some line)
    newVector ⟨x, y⟩
  | .list es _ => evaluateList self.evaluate es
  | .name name use line => evaluateName name use line
  | .member target name use line => do evaluateMember (← self.evaluate target) name use line
  | .index target position _ line =>
    let c ← self.evaluate target
    let i ← asInteger (← self.evaluate position) (some line)
    element c i (some line)
  | .call function arguments line =>
    let f ← self.evaluate function
    let args ← evaluateAll self.evaluate arguments
    mapFailure (Failure.located (some line)) (callCell self f args (some line))
  | .new typeName arguments line => evaluateNew self typeName arguments line
  | .negate operand line => do negate (← self.evaluate operand) (some line)
  | .not operand line =>
    let b ← asBoolean (← self.evaluate operand) (some line)
    newCell (.boolean !b)
  | .preIncrement operand direction line =>
    let c ← self.evaluate operand
    increment c direction.delta (some line)
    return c
  | .postIncrement operand direction line =>
    let c ← self.evaluate operand
    let old ← copyCell c
    increment c direction.delta (some line)
    return old
  | .arithmetic op lhs rhs line =>
    let a ← self.evaluate lhs
    let b ← self.evaluate rhs
    applyArithmetic self op a b (some line)
  | .relational op lhs rhs line =>
    let a ← self.evaluate lhs
    let b ← self.evaluate rhs
    applyRelational self op a b (some line)
  | .logical op lhs rhs line =>
    let left ← asBoolean (← self.evaluate lhs) (some line)
    match op, left with
    | .and, false => newCell (.boolean false)
    | .or, true => newCell (.boolean true)
    | _, _ =>
      let right ← asBoolean (← self.evaluate rhs) (some line)
      newCell (.boolean right)

end Exec

end CellScript
