import CellScript.Eval.Library
import CellScript.Eval.Operator

/-!
# Calls, texts and declarations

A call binds its arguments to the parameters in a scope of its own. A method call puts the members
of its object in a scope on top of that one, so members hide parameters and new names live beside
the members until the call ends. Whatever happens in a call, its scopes are gone afterwards.

`Interp` is the part of an interpreter that the parts defined here and in `Eval.Expression` and
`Eval.Statement` lead back to.
-/

namespace CellScript

/-- Functions of the host by name. -/
abbrev Host := String → Exec (Option Cell)

/-- The ways back into an interpreter. -/
structure Interp where
  /-- The cell that an expression stands for. -/
  evaluate : Expr → Exec Cell
  /-- Run a statement. -/
  execute : Stmt → Exec Unit
  /-- Run statements until one of them cuts the normal course short. -/
  run : List Stmt → Exec Unit
  /-- Call a function, perhaps as a method of an object. -/
  invoke : Callable → Option ObjectRef → List Cell → Option Nat → Exec Cell
  /-- The text of a cell in the given number of frames; objects may define their own. -/
  text : (frames : Nat) → Cell → Option Nat → Exec String

namespace Exec

/-! ## Declarations -/

/-- Declare a function. Declaring the same definition again changes nothing. -/
def declareFunction (f : FunctionDef Stmt) : Exec Unit := do
  match ← find? f.name with
  | some c =>
    match ← value c with
    | .function g _ =>
      if g.definition? == some f.id then return
      fail (.ambiguousFunction f.name) (some f.line)
    | _ => fail (.ambiguousFunction f.name) (some f.line)
  | none =>
    let c ← newCell (.function (.script f.parameters f.body f.id) none)
    if (← get).locals.isEmpty then addGlobal f.name c (some f.line) else addLocal f.name c

/-- The type that a class or instant defines. -/
def typeOf (isInstant : Bool) (name : String) (methods : List (FunctionDef Stmt)) (id : DefId) :
    ObjectType where
  name := name
  methods := .ofList (methods.map fun m => (m.name, .script m.parameters m.body m.id))
  isInstant := isInstant
  definition := some id

mutual

/-- Declare what a statement defines before anything runs. Blocks declare their own later. -/
def prepare : Stmt → Exec Unit
  | .function f => declareFunction f
  | .classDef isInstant name methods id line =>
    addType name (typeOf isInstant name methods id) (some line)
  | .include _ body _ => prepareAll body
  | _ => pure ()

/-- Declare what statements define. -/
def prepareAll : List Stmt → Exec Unit
  | [] => pure ()
  | s :: ss => do
    prepare s
    prepareAll ss

end

/-- Run statements until one of them cuts the normal course short. -/
def runAll (execute : Stmt → Exec Unit) : List Stmt → Exec Unit
  | [] => pure ()
  | s :: ss => do
    execute s
    if (← get).flags.any then pure () else runAll execute ss

/-! ## Calls -/

/-- A scope with arguments bound to parameters; missing arguments are undefined. -/
def bindArguments (scope : Scope) : List String → List Cell → Exec Scope
  | [], _ => pure scope
  | p :: ps, [] => do bindArguments (scope.add p (← newCell .undefined)) ps []
  | p :: ps, a :: as => bindArguments (scope.add p a) ps as

/-- Run a step with a slot of its own for the result, and take the result. -/
def takeResult (x : Exec Unit) : Exec Cell := do
  pushReturn (← newCell .undefined)
  x
  clear .ofReturn
  popReturn

/-- Run the body of a script function and take its result. -/
def runBody (self : Interp) (body : List Stmt) : Exec Cell := takeResult do
  prepareAll body
  self.run body

/-- Run a function that is not written in a script. -/
def runNative (host : Host) (text : Cell → Exec String) (f : Callable) : Exec (Option Cell) :=
  match f with
  | .script _ _ _ => pure none
  | .builtin b => runBuiltin text b
  | .colorMethod m r => runColorMethod m r
  | .vectorMethod m r => runVectorMethod m r
  | .listMethod m r => runListMethod m r
  | .host name _ => host name

/-- The text of a cell in all frames that there are. -/
def fullText (self : Interp) (c : Cell) (line : Option Nat) : Exec String := do
  self.text (← frames) c line

/-- Run what a function does, in the scopes of its call. -/
def runCallable (host : Host) (self : Interp) (f : Callable) (line : Option Nat) : Exec Cell := do
  match f with
  | .script _ body _ => runBody self body
  | f =>
    match ← mapFailure (Failure.located line) (runNative host (fullText self · none) f) with
    | some c => return c
    | none => newCell .undefined

/-- Text conversions without end count as calls without end. -/
def overrun (line : Option Nat) : Failure → Failure
  | .exhausted => .script .callDepthExceeded line
  | f => f

/-- The members of the object that a method is called on, as a scope. -/
def ownerScope : Option ObjectRef → Exec (Option Scope)
  | none => return none
  | some r => return some (← memberScope r)

/-- The arguments of a call as a scope. -/
def argumentScope (parameters : List String) (args : List Cell) (line : Option Nat) :
    Exec Scope :=
  if parameters.length < args.length then
    fail (.tooManyArguments parameters.length args.length) line
  else bindArguments .empty parameters args

/-- Run a step in the scopes of a call, which are gone afterwards whatever happens in it. -/
def inCall (parameters : List String) (owner : Option ObjectRef) (args : List Cell)
    (line : Option Nat) (x : Exec Cell) : Exec Cell := do
  let members ← ownerScope owner
  let scope ← argumentScope parameters args line
  enterCall line
  let depth ← localDepth
  modify (·.pushCall scope members)
  ensuring (mapFailure (overrun line) x) (leaveCall depth)

/-- Call a function, perhaps as a method of an object. -/
def invokeWith (host : Host) (self : Interp) (f : Callable) (owner : Option ObjectRef)
    (args : List Cell) (line : Option Nat) : Exec Cell :=
  inCall f.parameters owner args line (runCallable host self f line)

/-- Call the function that a cell holds. -/
def callCell (self : Interp) (c : Cell) (args : List Cell) (line : Option Nat) : Exec Cell := do
  match ← value c with
  | .function f owner => self.invoke f owner args line
  | _ => fail .notAFunction line

/-! ## Texts -/

/-- The texts of a list's elements from a place on, at most `limit` of them, behind the texts before
it, last first. What a text appends to the list is an element like the others. -/
def elementTexts (text : Cell → Exec String) (r : ListRef) :
    (limit : Nat) → (place : Nat) → (before : List String) → Exec (List String)
  | 0, _, _ => throw .outOfFuel
  | n + 1, i, before => fun s =>
    match (s.store.list r)[i]? with
    | none => .ok before.reverse s
    | some c =>
      match text c s with
      | .ok t s' => elementTexts text r n (i + 1) (t :: before) s'
      | .error f s' => .error f s'

/-- The text of a cell. An object with a method `ToString` is asked for its text, and what that
gives is turned into a text in turn. -/
def textWith (limit : Nat) (self : Interp) (frames : Nat) (c : Cell) (line : Option Nat) :
    Exec String := do
  match ← value c with
  | .list r =>
    if frames < Store.listFrames then throw .exhausted
    let text e := self.text (frames - Store.listFrames) e line
    return Store.bracketed (← elementTexts text r limit 0 [])
  | .object r =>
    match ← method? c "ToString" with
    | some m =>
      if frames < Store.askFrames then fail .callDepthExceeded line
      self.text (frames - Store.objectFrames) (← callCell self m [] line) line
    | none => ofNumber ((← storage).leafText (.object r))
  | v => ofNumber ((← storage).leafText v)

/-! ## Operators with overloads -/

/-- The result of the method that an object defines for an operator, if it does. -/
def overload? (self : Interp) (symbol : String) (a b : Cell) (line : Option Nat) :
    Exec (Option Cell) := do
  match ← value a with
  | .object _ =>
    match ← method? a ("operator" ++ symbol) with
    | some m => return some (← callCell self m [b] line)
    | none => return none
  | _ => return none

/-- Whether one of two cells holds a text. -/
def involvesText (a b : Cell) : Exec Bool := do
  return (← kindOf a) == .string || (← kindOf b) == .string

/-- Apply an arithmetic operator: the object's own, or joined texts, or the built-in one. -/
def applyArithmetic (self : Interp) (op : ArithmeticOp) (a b : Cell) (line : Option Nat) :
    Exec Cell := do
  match ← overload? self op.symbol a b line with
  | some c => return c
  | none =>
    if op == .add then
      if ← involvesText a b then
        let s ← fullText self a line
        let t ← fullText self b line
        return ← newCell (.string (s ++ t))
    match ← arithmetic? op a b line with
    | some c => return c
    | none => unsupported a b op.symbol line

/-- Apply a relational operator. Equality with undefined is built in; then comes the object's own
operator, then the built-in one. -/
def applyRelational (self : Interp) (op : RelationalOp) (a b : Cell) (line : Option Nat) :
    Exec Cell := do
  let k ← kindOf a
  let m ← kindOf b
  if op.isEquality && (k == .undefined || m == .undefined) then
    return ← newCell (.boolean (((k == .undefined) == (m == .undefined)) == (op == .equal)))
  match ← overload? self op.symbol a b line with
  | some c => return c
  | none =>
    match ← compare? op a b line with
    | some b => newCell (.boolean b)
    | none => unsupported a b op.symbol line

end Exec

end CellScript
