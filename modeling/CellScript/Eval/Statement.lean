import CellScript.Eval.Expression

/-!
# Running statements

Blocks and loops run in a scope of their own, which is gone afterwards whatever happens in them. A
loop ends at a raised `break` or `return`, and takes `break` and `continue` back when it ends.
-/

namespace CellScript

namespace Exec

variable {α : Type}

/-- Run a step in a block scope of its own. -/
def inBlock (x : Exec α) : Exec α := do
  modify (·.pushBlockScope .empty)
  ensuring x popLocalScope

/-! ## Loops -/

/-- Whether a condition holds. -/
def holds (self : Interp) (condition : Expr) (line : Nat) : Exec Bool := do
  asBoolean (← self.evaluate condition) (some line)

/-- A loop that asks before each turn. After the body of a turn `next` may do something more. -/
def loopBefore (limit : Nat) (condition : Exec Bool) (body next : Exec Unit) : Exec Unit := do
  clear .ofBreak
  iterate limit do
    if ← isRaised .loopExit then return false
    if !(← condition) then return false
    clear .ofContinue
    body
    if ← isRaised .loopExit then return false
    next
    return true
  clear .loopOwned

/-- A loop that asks after each turn. -/
def loopAfter (limit : Nat) (condition : Exec Bool) (body : Exec Unit) : Exec Unit := do
  clear .ofBreak
  iterate limit do
    clear .ofContinue
    body
    if ← isRaised .loopExit then return false
    condition
  clear .loopOwned

/-! ## Realizations -/

/-- Run a step with the members of an object in scope, as the object being realized, and give the
names bound at its end. -/
def inRealization (obj : Cell) (members : Scope) (x : Exec Unit) : Exec (Bindings Cell) := do
  modify (·.pushFunctionScope members)
  pushInstant obj
  let run := do
    x
    innermostNames
  ensuring run do
    popInstant
    popLocalScope

/-- Make the names bound by a realization members of its object. Names that are members already stay
as they are, and free functions become methods. -/
def promote (r : ObjectRef) : List (String × Cell) → Exec Unit
  | [] => pure ()
  | (name, c) :: rest => do
    let members := ((← storage).object r).members
    if name != "this" && !members.contains name then
      match ← value c with
      | .function f none => bindMethod r name f
      | _ => updateStore (·.setMember r name c)
    promote r rest

/-- A new cell with the innermost object being realized, or undefined if there is none. -/
def copyInstant : Exec Cell := do
  match (← get).instants with
  | obj :: _ => copyCell obj
  | [] => newCell .undefined

/-- Tell an object its parent: the object being realized around it, if there is one. -/
def bindParent (r : ObjectRef) : Exec Unit := do
  let parent ← copyInstant
  updateStore (·.setMember r "parent" parent)

/-- Fill an object by a step that runs with its members in scope: the names that the step binds
become members. -/
def fillObject (obj : Cell) (r : ObjectRef) (x : Exec Unit) : Exec Unit := do
  let bound ← inRealization obj (← memberScope r) x
  promote r bound.entries
  bindParent r

/-- Call a method without arguments, if there is one. -/
def callIfMethod (self : Interp) (obj : Cell) (name : String) (line : Nat) : Exec Unit := do
  if let some m ← method? obj name then
    let _ ← callCell self m [] (some line)

/-- Realize an object: construct it, run the statements, take their names as members, tell it its
parent, and call its `realize`. -/
def realize (self : Interp) (typeName : String) (body : List Stmt) (line : Nat) : Exec Unit := do
  match ← findType? typeName with
  | none => fail (.unknownType typeName) (some line)
  | some t =>
    let r ← makeObject t
    let obj ← newCell (.object r)
    callIfMethod self obj typeName line
    fillObject obj r do
      prepareAll body
      self.run body
    callIfMethod self obj "realize" line
    addAnonymous obj

/-! ## Statements -/

/-- Run a statement. Loops take at most `limit` turns. -/
def executeWith (limit : Nat) (self : Interp) (s : Stmt) : Exec Unit := do
  match s with
  | .expression e =>
    let _ ← self.evaluate e
  | .assign target value line =>
    let source ← self.evaluate value
    let c ← self.evaluate target
    assign c source (some line)
  | .update op target value line =>
    let c ← self.evaluate target
    let v ← self.evaluate value
    assign c (← applyArithmetic self op c v (some line)) (some line)
  | .realize typeName body line => realize self typeName body line
  | .nop _ => pure ()
  | .include _ body _ => self.run body
  | .block body _ => inBlock do
    prepareAll body
    self.run body
  | .branch condition positive negative line =>
    if ← holds self condition line then self.execute positive
    else match negative with
      | some s => self.execute s
      | none => pure ()
  | .loop body _ => inBlock (loopBefore limit (pure true) (self.execute body) (pure ()))
  | .whileLoop condition body line =>
    inBlock (loopBefore limit (holds self condition line) (self.execute body) (pure ()))
  | .doWhile condition body line =>
    inBlock (loopAfter limit (holds self condition line) (self.execute body))
  | .forLoop init condition step body line =>
    inBlock do
      self.execute init
      loopBefore limit (holds self condition line) (self.execute body) (self.execute step)
  | .break _ => raise .ofBreak
  | .continue _ => raise .ofContinue
  | .return value line =>
    let c ← match value with
      | some e => self.evaluate e
      | none => newCell .undefined
    setReturn c (some line)
    raise .ofReturn
  | .global name _ => modify (·.declareGlobal name)
  | .function _ => pure ()
  | .classDef _ _ _ _ _ => pure ()

end Exec

/-! ## The interpreter -/

namespace Interp

mutual

/-- Evaluate an expression in at most `fuel` nested steps. -/
def evaluateAt (host : Host) : (fuel : Nat) → Expr → Exec Cell
  | 0, _ => throw .outOfFuel
  | n + 1, e => Exec.evaluateWith ⟨evaluateAt host n, executeAt host n,
      Exec.runAll (executeAt host n), invokeAt host n, textAt host n⟩ e

/-- Run a statement in at most `fuel` nested steps and turns. -/
def executeAt (host : Host) : (fuel : Nat) → Stmt → Exec Unit
  | 0, _ => throw .outOfFuel
  | n + 1, s => Exec.executeWith n ⟨evaluateAt host n, executeAt host n,
      Exec.runAll (executeAt host n), invokeAt host n, textAt host n⟩ s

/-- Call a function in at most `fuel` nested steps. -/
def invokeAt (host : Host) : (fuel : Nat) → Callable → Option ObjectRef → List Cell → Option Nat →
    Exec Cell
  | 0, _, _, _, _ => throw .outOfFuel
  | n + 1, f, owner, args, line => Exec.invokeWith host ⟨evaluateAt host n, executeAt host n,
      Exec.runAll (executeAt host n), invokeAt host n, textAt host n⟩ f owner args line

/-- The text of a cell in at most `fuel` nested steps and elements of a list. -/
def textAt (host : Host) : (fuel : Nat) → (frames : Nat) → Cell → Option Nat → Exec String
  | 0, _, _, _ => throw .outOfFuel
  | n + 1, frames, c, line => Exec.textWith n ⟨evaluateAt host n, executeAt host n,
      Exec.runAll (executeAt host n), invokeAt host n, textAt host n⟩ frames c line

end

/-- The interpreter with the given fuel. -/
def withFuel (host : Host) (fuel : Nat) : Interp :=
  ⟨evaluateAt host fuel, executeAt host fuel, Exec.runAll (executeAt host fuel),
    invokeAt host fuel, textAt host fuel⟩

end Interp

end CellScript
