import CellScript.Failure
import CellScript.Scope
import CellScript.Store

/-!
# The state of a run

Everything that a running script can see or change: the storage, the global scopes, the local scopes
of the active calls and blocks, the slots for results, the flags that `return`, `break` and
`continue` raise, the objects being realized, the number of active calls, and what has been printed
and logged. `Exec` is a step of a run; a failed step keeps the state that it reached.
-/

namespace CellScript

/-! ## Flags -/

/-- Which statement has cut the normal course short. -/
structure Flags where
  returning : Bool
  breaking : Bool
  continuing : Bool
  deriving DecidableEq, Repr

namespace Flags

/-- The normal course. -/
def none : Flags := ⟨false, false, false⟩

/-- A `return` has been executed. -/
def ofReturn : Flags := ⟨true, false, false⟩

/-- A `break` has been executed. -/
def ofBreak : Flags := ⟨false, true, false⟩

/-- A `continue` has been executed. -/
def ofContinue : Flags := ⟨false, false, true⟩

/-- The flags of either set. -/
def union (f g : Flags) : Flags :=
  ⟨f.returning || g.returning, f.breaking || g.breaking, f.continuing || g.continuing⟩

/-- The flags of the first set that are not in the second. -/
def diff (f g : Flags) : Flags :=
  ⟨f.returning && !g.returning, f.breaking && !g.breaking, f.continuing && !g.continuing⟩

/-- Whether two sets have a flag in common. -/
def meets (f g : Flags) : Bool :=
  (f.returning && g.returning) || (f.breaking && g.breaking) || (f.continuing && g.continuing)

/-- Whether any flag is raised. -/
def any (f : Flags) : Bool := f.returning || f.breaking || f.continuing

/-- The flags as bits: one for `return`, two for `break`, four for `continue`. -/
def toNat (f : Flags) : Nat :=
  f.returning.toNat + 2 * f.breaking.toNat + 4 * f.continuing.toNat

/-- The flags of the given bits. -/
def ofNat (n : Nat) : Flags := ⟨n.testBit 0, n.testBit 1, n.testBit 2⟩

/-- The flags that end a loop. -/
def loopExit : Flags := ⟨true, true, false⟩

/-- The flags that a loop takes back when it ends. -/
def loopOwned : Flags := ⟨false, true, true⟩

end Flags

/-! ## State -/

/-- A local scope on the stack. A linked one sees the scope below it; that of a call does not. -/
structure Frame where
  scope : Scope
  linked : Bool

/-- A message that was logged, and by which logger. -/
structure LogRecord where
  level : LogLevel
  logger : String
  message : String
  deriving DecidableEq, Repr

/-- The state of a run. All stacks have their top at the front. -/
structure State where
  store : Store
  globals : List Scope
  locals : List Frame
  /-- The result of each active call and of the script. -/
  returns : List Cell
  flags : Flags
  /-- The objects being realized. -/
  instants : List Cell
  callDepth : Int
  maxCallDepth : Int
  /-- The frames that there are on the stack of the machine. The host says how many, and while a
  script runs there are more. -/
  frames : Nat
  /-- The texts printed so far, last first. -/
  printed : List String
  /-- The messages logged so far, last first. -/
  logged : List LogRecord
  /-- Whether the interpreter logs what it does itself. -/
  tracing : Bool
  random : StdGen

namespace State

/-- The calls that may be active at once unless the host says otherwise. -/
def defaultMaxCallDepth : Int := 200

/-- The frames on the stack of the machine unless the host says otherwise. -/
def defaultFrames : Nat := 10000

/-- A state without any scope. -/
def initial (maxCallDepth : Int) : State where
  store := .empty
  globals := []
  locals := []
  returns := []
  flags := .none
  instants := []
  callDepth := 0
  maxCallDepth := maxCallDepth
  frames := defaultFrames
  printed := []
  logged := []
  tracing := false
  random := mkStdGen 20240917

end State

/-! ## Steps -/

/-- A step of a run with a result of type `α`. -/
abbrev Exec := EStateM Failure State

namespace Exec

variable {α : Type}

/-- Fail for a cause. -/
def fail (cause : Cause) (line : Option Nat) : Exec α := throw (.script cause line)

/-- Go on with a number unless it has no value. -/
def ofNumber (x : Except NumberFault α) : Exec α :=
  match x with
  | .ok a => pure a
  | .error f => throw (.number f)

/-- Run a step and another one afterwards, whether the first succeeds or fails. A failure of the
second takes the place of the first one's outcome. -/
def ensuring (x : Exec α) (finish : Exec Unit) : Exec α := fun s =>
  match x s with
  | .ok a s' =>
    match finish s' with
    | .ok _ s'' => .ok a s''
    | .error e s'' => .error e s''
  | .error e s' =>
    match finish s' with
    | .ok _ s'' => .error e s''
    | .error e' s'' => .error e' s''

/-- Change the failure of a step. -/
def mapFailure (f : Failure → Failure) (x : Exec α) : Exec α := fun s =>
  match x s with
  | .ok a s' => .ok a s'
  | .error e s' => .error (f e) s'

/-- The frames that there are on the stack of the machine. -/
def frames : Exec Nat := return (← get).frames

/-- Take turns as long as they ask for another one, at most `limit` of them. -/
def iterate : (limit : Nat) → (turn : Exec Bool) → Exec Unit
  | 0, _ => throw .outOfFuel
  | n + 1, turn => fun s =>
    match turn s with
    | .ok true s' => iterate n turn s'
    | .ok false s' => .ok () s'
    | .error e s' => .error e s'

/-! ### Storage -/

/-- The storage as it stands. -/
def storage : Exec Store := return (← get).store

/-- The value of a cell. -/
def value (c : Cell) : Exec Value := return (← get).store.get c

/-- Change the storage. -/
def updateStore (f : Store → Store) : Exec Unit := modify fun s => { s with store := f s.store }

/-- Make something new in the storage. -/
def allocate (f : Store → α × Store) : Exec α :=
  modifyGet fun s =>
    let (a, store) := f s.store
    (a, { s with store })

/-- A new cell with a value. -/
def newCell (v : Value) : Exec Cell := allocate (·.alloc v)

/-- A number as the storage keeps it: not-a-number gets an origin of its own unless it has one. -/
def keep (x : Number) : Exec Number :=
  match x with
  | .real y => if y.isNaN then allocate (·.newNan) else pure x
  | x => pure x

/-- A color as the storage keeps it. -/
def keepColor (c : Color Number) : Exec (Color Number) := do
  return ⟨← keep c.r, ← keep c.g, ← keep c.b, ← keep c.a⟩

/-- A vector as the storage keeps it. -/
def keepVector (v : Vector2 Number) : Exec (Vector2 Number) := do
  return ⟨← keep v.x, ← keep v.y⟩

/-- A new cell with a real. -/
def newReal (x : Number) : Exec Cell := do newCell (.real (← keep x))

/-- A new cell with a new color. -/
def newColor (c : Color Number) : Exec Cell := do
  let c ← keepColor c
  newCell (.color (← allocate (·.allocColor c)))

/-- A new cell with a new vector. -/
def newVector (v : Vector2 Number) : Exec Cell := do
  let v ← keepVector v
  newCell (.vector (← allocate (·.allocVector v)))

/-- A new cell with a new list. -/
def newList (cs : Array Cell) : Exec Cell := do newCell (.list (← allocate (·.allocList cs)))

/-! ### Output -/

/-- Print a text. -/
def print (s : String) : Exec Unit := modify fun st => { st with printed := s :: st.printed }

/-- Log a message. -/
def log (level : LogLevel) (logger message : String) : Exec Unit :=
  modify fun st => { st with logged := ⟨level, logger, message⟩ :: st.logged }

/-- Log what the interpreter does, if that is wanted. -/
def trace (logger message : String) : Exec Unit := do
  if (← get).tracing then log .debug logger message

end Exec

end CellScript
