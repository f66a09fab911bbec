import CellScript.State

/-!
# Names, stacks and flags

How a run resolves names and keeps its stacks. A name is looked for along the scopes of the current
call, then in the global scopes from the top. A new name is bound in the innermost local scope, or
in the top global scope if there is none or the name is declared as global.
-/

namespace CellScript

namespace State

/-! ## Global scopes -/

/-- Look for a name in global scopes, top first. -/
def findGlobalIn (name : String) : List Scope → Option Cell
  | [] => none
  | s :: below =>
    match s.items.find? name with
    | some c => some c
    | none => findGlobalIn name below

/-- The cell of a global name. -/
def findGlobal? (s : State) (name : String) : Option Cell := findGlobalIn name s.globals

/-- Add an empty global scope on top. -/
def pushGlobal (s : State) : State := { s with globals := .empty :: s.globals }

/-- Look for a type in global scopes, top first. -/
def findTypeIn (name : String) : List Scope → Option ObjectType
  | [] => none
  | s :: below =>
    match s.types.find? name with
    | some t => some t
    | none => findTypeIn name below

/-- The type of a name. -/
def findType? (s : State) (name : String) : Option ObjectType := findTypeIn name s.globals

/-! ## Local scopes -/

/-- The scopes of the current call, innermost first. -/
def chainOf : List Frame → List Scope
  | [] => []
  | f :: below => f.scope :: if f.linked then chainOf below else []

/-- The scopes of the current call. -/
def chain (s : State) : List Scope := chainOf s.locals

/-- The cell of a local name. -/
def findLocal? (s : State) (name : String) : Option Cell := Scope.findIn name s.chain

/-- Whether a name is declared as global in the current call. -/
def isDeclaredGlobal (s : State) (name : String) : Bool := Scope.declaredGlobal name s.chain

/-- Change the innermost local scope, if there is one. -/
def mapTop (s : State) (f : Scope → Scope) : State :=
  match s.locals with
  | [] => s
  | top :: below => { s with locals := { top with scope := f top.scope } :: below }

/-- Declare a name as global in the innermost local scope; without one, nothing has to be said. -/
def declareGlobal (s : State) (name : String) : State := s.mapTop (·.declareGlobal name)

/-- Add the scope of a call. -/
def pushFunctionScope (s : State) (scope : Scope) : State :=
  { s with locals := ⟨scope, false⟩ :: s.locals }

/-- Add the scope of a block, which sees the scope below it. -/
def pushBlockScope (s : State) (scope : Scope) : State :=
  { s with locals := ⟨scope, true⟩ :: s.locals }

/-- Add the scope of a call and, for a method, the scope of its object's members on top. -/
def pushCall (s : State) (scope : Scope) : (members : Option Scope) → State
  | none => s.pushFunctionScope scope
  | some members => (s.pushFunctionScope scope).pushBlockScope members

/-- Remove local scopes down to a number. -/
def popLocalsTo (s : State) (depth : Nat) : State :=
  { s with locals := s.locals.drop (s.locals.length - depth) }

/-! ## Names -/

/-- The cell of a name. -/
def find? (s : State) (name : String) : Option Cell :=
  match s.findLocal? name with
  | some c => some c
  | none => s.findGlobal? name

/-! ## Flags -/

/-- Raise flags. -/
def raise (s : State) (f : Flags) : State := { s with flags := s.flags.union f }

/-- Take flags back. -/
def clear (s : State) (f : Flags) : State := { s with flags := s.flags.diff f }

/-! ## The end of a run -/

/-- Drop what belongs to a single run: local scopes, result slots, flags, objects being realized and
active calls. -/
def reset (s : State) : State :=
  { s with locals := [], returns := [], instants := [], flags := .none, callDepth := 0 }

/-- Drop the global scopes as well and begin with an empty one. -/
def restart (s : State) : State := { s.reset with globals := [.empty] }

end State

namespace Exec

/-- Bind a new global name. -/
def addGlobal (name : String) (c : Cell) (line : Option Nat) : Exec Unit := do
  let s ← get
  if (s.findGlobal? name).isSome then fail (.ambiguousGlobal name) line
  match s.globals with
  | [] => fail .noGlobalScope line
  | top :: below => set { s with globals := top.add name c :: below }

/-- Remove the top global scope. -/
def popGlobal : Exec Unit := do
  let s ← get
  match s.globals with
  | [] => throw .emptyStack
  | _ :: below => set { s with globals := below }

/-- Remove the innermost local scope. -/
def popLocalScope : Exec Unit := do
  let s ← get
  match s.locals with
  | [] => throw .emptyStack
  | _ :: below => set { s with locals := below }

/-- Bind a name in the innermost local scope. -/
def addLocal (name : String) (c : Cell) : Exec Unit := do
  let s ← get
  if s.locals.isEmpty then throw .emptyStack
  set (s.mapTop (·.add name c))

/-- The names bound in the innermost local scope. -/
def innermostNames : Exec (Bindings Cell) := do
  match (← get).locals with
  | top :: _ => return top.scope.items
  | [] => return .empty

/-- Bind a new name where an assignment makes it. -/
def addName (name : String) (c : Cell) (line : Option Nat) : Exec Unit := do
  let s ← get
  if !s.locals.isEmpty && !s.isDeclaredGlobal name then addLocal name c
  else addGlobal name c line

/-- The cell of a name. -/
def find? (name : String) : Exec (Option Cell) := return (← get).find? name

/-- The type of a name. -/
def findType? (name : String) : Exec (Option ObjectType) := return (← get).findType? name

/-- The cell of a name that has to be bound. -/
def getName (name : String) (line : Option Nat) : Exec Cell := do
  match ← find? name with
  | some c => return c
  | none => fail (.unknownIdentifier name) line

/-- Keep a cell in the innermost scope without a name. -/
def addAnonymous (c : Cell) : Exec Unit := do
  let s ← get
  match s.locals, s.globals with
  | _ :: _, _ => set (s.mapTop (·.addAnonymous c))
  | [], top :: below => set { s with globals := top.addAnonymous c :: below }
  | [], [] => throw .emptyStack

/-- Register a type. Registering one definition again changes nothing. -/
def addType (name : String) (t : ObjectType) (line : Option Nat) : Exec Unit := do
  let s ← get
  match s.findType? name with
  | some old =>
    if old.definition.isSome && old.definition == t.definition then return
    fail (.ambiguousClass name) line
  | none =>
    match s.globals with
    | [] => throw .emptyStack
    | top :: below =>
      let top := { top with types := top.types.insert name t }
      set { s with globals := top :: below }

/-- Add a slot for a result. -/
def pushReturn (c : Cell) : Exec Unit := modify fun s => { s with returns := c :: s.returns }

/-- Take the result out of the top slot. -/
def popReturn : Exec Cell := do
  let s ← get
  match s.returns with
  | [] => throw .emptyStack
  | c :: below =>
    set { s with returns := below }
    return c

/-- Put a result into the top slot. -/
def setReturn (c : Cell) (line : Option Nat) : Exec Unit := do
  let s ← get
  match s.returns with
  | [] => fail .returnOutside line
  | _ :: below => set { s with returns := c :: below }

/-- Begin to realize an object. -/
def pushInstant (c : Cell) : Exec Unit := modify fun s => { s with instants := c :: s.instants }

/-- End realizing an object. -/
def popInstant : Exec Unit := do
  let s ← get
  match s.instants with
  | [] => throw .emptyStack
  | _ :: below => set { s with instants := below }

/-- Count a call, unless too many are active. -/
def enterCall (line : Option Nat) : Exec Unit := do
  let s ← get
  if s.maxCallDepth ≤ s.callDepth then fail .callDepthExceeded line
  set { s with callDepth := s.callDepth + 1 }

/-- How many local scopes there are. -/
def localDepth : Exec Nat := return (← get).locals.length

/-- Count a call no more and remove the local scopes above a number. -/
def leaveCall (depth : Nat) : Exec Unit :=
  modify fun s => { s.popLocalsTo depth with callDepth := s.callDepth - 1 }

/-- Raise flags. -/
def raise (f : Flags) : Exec Unit := modify (·.raise f)

/-- Take flags back. -/
def clear (f : Flags) : Exec Unit := modify (·.clear f)

/-- Whether one of the given flags is raised. -/
def isRaised (f : Flags) : Exec Bool := return (← get).flags.meets f

end Exec

end CellScript
