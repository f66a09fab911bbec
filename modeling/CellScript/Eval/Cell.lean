import CellScript.Context

/-!
# Reading, writing and selecting cells

The conversions of a cell's value, the rule of assignment, and the members of values.

Assigning detaches values: colors, vectors and lists are copied, a list with the same element cells,
while objects, functions and types stay shared. A cell that stands for a component of a color or
vector is written through.
-/

namespace CellScript

namespace Exec

/-! ## Conversions -/

/-- The number of a value that is a real or an integer, as a real. -/
def numberOf (v : Value) (line : Option Nat) : Exec Number := do
  match v with
  | .integer n => return .real (← ofNumber (Number.floatOfInt n))
  | .real x => return x
  | .component k => ofNumber ((← storage).component k).toReal
  | _ => fail .realExpected line

/-- A cell as a real. -/
def asReal (c : Cell) (line : Option Nat) : Exec Number := do numberOf (← value c) line

/-- A cell as an integer; the fraction of a real is dropped. -/
def asInteger (c : Cell) (line : Option Nat) : Exec Int := do
  match ← value c with
  | .integer n => return n
  | .real x => ofNumber x.truncate
  | .component k =>
    let x ← ofNumber ((← storage).component k).toReal
    ofNumber x.truncate
  | _ => fail .integerExpected line

/-- A cell as a truth value. -/
def asBoolean (c : Cell) (line : Option Nat) : Exec Bool := do
  match ← value c with
  | .boolean b => return b
  | _ => fail .booleanExpected line

/-- A cell as a color. -/
def asColor (c : Cell) (line : Option Nat) : Exec ColorRef := do
  match ← value c with
  | .color r => return r
  | _ => fail .colorExpected line

/-- A cell as a vector. -/
def asVector (c : Cell) (line : Option Nat) : Exec VectorRef := do
  match ← value c with
  | .vector r => return r
  | _ => fail .vectorExpected line

/-- The kind of a cell's value. -/
def kindOf (c : Cell) : Exec Kind := return (← value c).kind

/-! ## Assignment -/

/-- What assigning a value stores. -/
def detached (v : Value) : Exec Value := do
  match v with
  | .component k => return .real (← ofNumber ((← storage).component k).toReal)
  | .color r => return .color (← allocate fun s => s.allocColor (s.color r))
  | .vector r => return .vector (← allocate fun s => s.allocVector (s.vector r))
  | .list r => return .list (← allocate fun s => s.allocList (s.list r))
  | v => return v

/-- A new cell with what assigning `c` would store. -/
def copyCell (c : Cell) : Exec Cell := do newCell (← detached (← value c))

/-- Give a cell a new value, through to the component that it may stand for. -/
def store (c : Cell) (v : Value) (line : Option Nat) : Exec Unit := do
  match ← value c with
  | .component k =>
    let x ← numberOf v line
    updateStore (·.setComponent k x)
  | _ =>
    let v ← detached v
    updateStore (·.set c v)

/-- Assign one cell to another. -/
def assign (target source : Cell) (line : Option Nat) : Exec Unit := do
  if target == source then return
  store target (← value source) line

/-- Count a number in a cell up or down. -/
def increment (c : Cell) (delta : Int) (line : Option Nat) : Exec Unit := do
  match ← value c with
  | .integer n => store c (.integer (n + delta)) line
  | .real x => store c (.real (← keep (← ofNumber (x.add (.whole delta))))) line
  | .component k =>
    let x ← numberOf (.component k) line
    store c (.real (← keep (← ofNumber (x.add (.whole delta))))) line
  | v => fail (.cannotIncrement v.kind) line

/-- A new cell with the opposite of a cell's value. -/
def negate (c : Cell) (line : Option Nat) : Exec Cell := do
  match ← value c with
  | .integer n => newCell (.integer (-n))
  | .real x => newReal x.neg
  | .component k => newReal (← numberOf (.component k) line).neg
  | .color r => newColor ((← storage).color r).neg
  | .vector r => newVector ((← storage).vector r).neg
  | v => fail (.cannotNegate v.kind) line

/-! ## Members -/

/-- A member of a color. -/
def colorMember? (r : ColorRef) (name : String) : Option Value :=
  match Channel.ofName? name with
  | some k => some (.component (.channel r k))
  | none => (ColorMethod.ofName? name).map fun m => .function (.colorMethod m r) none

/-- A member of a vector. -/
def vectorMember? (r : VectorRef) (name : String) : Option Value :=
  match Axis.ofName? name with
  | some k => some (.component (.axis r k))
  | none => (VectorMethod.ofName? name).map fun m => .function (.vectorMethod m r) none

/-- A member of a list. -/
def listMember? (r : ListRef) (name : String) : Option Value :=
  (ListMethod.ofName? name).map fun m => .function (.listMethod m r) none

/-- A new cell with a value, if there is one. -/
def newCell? (v : Option Value) : Exec (Option Cell) :=
  match v with
  | none => return none
  | some v => return some (← newCell v)

/-- The cell of a member. Members of built-in values are made when they are asked for. -/
def member? (c : Cell) (name : String) : Exec (Option Cell) := do
  match ← value c with
  | .color r => newCell? (colorMember? r name)
  | .vector r => newCell? (vectorMember? r name)
  | .list r => newCell? (listMember? r name)
  | .object r => return ((← storage).object r).members.find? name
  | _ => return none

/-- The cell of a member that is a function. -/
def method? (c : Cell) (name : String) : Exec (Option Cell) := do
  match ← member? c name with
  | none => return none
  | some m => return if (← kindOf m) == .function then some m else none

/-- Bind a member of an object; no other value takes members. -/
def addMember (c : Cell) (name : String) (m : Cell) (line : Option Nat) : Exec Unit := do
  match ← value c with
  | .object r => updateStore (·.setMember r name m)
  | _ => fail .noMembers line

/-- Bind a member to a new undefined cell. -/
def newMember (owner : Cell) (name : String) (line : Option Nat) : Exec Cell := do
  let c ← newCell .undefined
  addMember owner name c line
  return c

/-- The cell of a list element. -/
def element (c : Cell) (index : Int) (line : Option Nat) : Exec Cell := do
  match ← value c with
  | .list r =>
    let cells := (← storage).list r
    let outside : Exec Cell := fail (.indexOutOfRange cells.size index) line
    match index with
    | .ofNat k => (cells[k]?).elim outside pure
    | .negSucc _ => outside
  | _ => fail .notAList line

/-! ## Objects -/

/-- Bind a method of an object to a new cell. -/
def bindMethod (r : ObjectRef) (name : String) (f : Callable) : Exec Unit := do
  let c ← newCell (.function f (some r))
  updateStore (·.setMember r name c)

/-- Bind methods of an object in order. -/
def bindMethods (r : ObjectRef) : List (String × Callable) → Exec Unit
  | [] => pure ()
  | (name, f) :: rest => do
    bindMethod r name f
    bindMethods r rest

/-- A new object of a type, its methods bound to it. -/
def makeObject (t : ObjectType) : Exec ObjectRef := do
  let r ← allocate (·.allocObject t.name)
  bindMethods r t.methods.entries
  return r

/-- A new cell with a new object of a type. -/
def newObject (t : ObjectType) : Exec Cell := do newCell (.object (← makeObject t))

/-- A scope with the members of an object, and the object itself as `this`. -/
def memberScope (r : ObjectRef) : Exec Scope := do
  let this ← newCell (.object r)
  let members := ((← storage).object r).members
  return members.entries.foldl (fun s (name, c) => s.add name c) (Scope.empty.add "this" this)

end Exec

/-! ## Text without running anything -/

namespace Store

/-- The frames that the text of a list takes on the stack of the machine. One that contains itself
takes more than any number. -/
def listFrames : Nat := 4

/-- The frames that the text of an object takes while the text that it gives is found. -/
def objectFrames : Nat := 2

/-- The frames that an object needs to be asked for its text. -/
def askFrames : Nat := 12

/-- How deep texts of lists may nest in the given number of frames. -/
def depthIn (frames : Nat) : Nat := frames / listFrames

/-- How deep texts of lists may nest unless the host says otherwise. -/
def textDepth : Nat := depthIn State.defaultFrames

/-- The text of a value without the texts of list elements or objects' own texts. -/
def leafText (s : Store) : Value → Except NumberFault String
  | .undefined => .ok "undefined"
  | .boolean b => .ok (if b then "true" else "false")
  | .integer n => Number.written [.whole n] (integerText n)
  | .real x => Number.written [x] x.text
  | .component k => (s.component k).toReal.map Number.text
  | .string t => .ok t
  | .color r => Number.written (s.color r).shown (s.color r).text
  | .vector r => Number.written [(s.vector r).x, (s.vector r).y] (s.vector r).text
  | .list _ => .ok "[]"
  | .function _ _ => .ok "<function>"
  | .object r => .ok s!"<{(s.object r).typeName} object>"
  | .objectType t => .ok s!"<class {t.name}>"

/-- The texts of cells, one after the other. -/
def textsWith (text : Cell → Except Failure String) : List Cell → Except Failure (List String)
  | [] => .ok []
  | c :: cs => do
    let t ← text c
    let ts ← textsWith text cs
    return t :: ts

/-- A list of texts in brackets. -/
def bracketed (ts : List String) : String := "[" ++ String.intercalate ", " ts ++ "]"

/-- The text of a cell as it stands, without asking objects for theirs. -/
def plainText (s : Store) : (depth : Nat) → Cell → Except Failure String
  | 0, _ => .error .exhausted
  | n + 1, c =>
    match s.get c with
    | .list r => return bracketed (← textsWith (s.plainText n) (s.list r).toList)
    | v => (s.leafText v).mapError .number

/-- A cell shown with its kind and text, in the given number of frames. -/
def describeIn (frames : Nat) (s : Store) (c : Cell) : Except Failure String := do
  return s!"Item({(s.get c).kind.name}, {← s.plainText (depthIn frames) c})"

/-- A cell shown with its kind and text unless the host says otherwise. -/
def describe (s : Store) (c : Cell) : Except Failure String := s.describeIn State.defaultFrames c

end Store

end CellScript
