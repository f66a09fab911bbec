import CellScript.Value.Basic

/-!
# Storage

The storage holds the value of every cell and the colors, vectors, lists and objects that values
refer to. It only grows: nothing is ever removed, so an index stays good for ever. It also counts
the computations that came out as not-a-number, so that each of them has an origin of its own.
-/

namespace CellScript

/-- The contents of all cells and of what values refer to. -/
structure Store where
  cells : Array Value
  colors : Array (Color Number)
  vectors : Array (Vector2 Number)
  lists : Array (Array Cell)
  objects : Array ObjectData
  /-- How many origins of not-a-number there are. -/
  origins : Nat

namespace Store

/-- A storage without cells. -/
def empty : Store := ⟨#[], #[], #[], #[], #[], 0⟩

/-! ## Cells -/

/-- The value of a cell. -/
def get (s : Store) (c : Cell) : Value := s.cells[c.index]?.getD .undefined

/-- Give a cell another value. -/
def set (s : Store) (c : Cell) (v : Value) : Store :=
  { s with cells := s.cells.setIfInBounds c.index v }

/-- A new cell with a value. -/
def alloc (s : Store) (v : Value) : Cell × Store :=
  (⟨s.cells.size⟩, { s with cells := s.cells.push v })

/-! ## Numbers -/

/-- Not-a-number with an origin of its own. -/
def newNan (s : Store) : Number × Store := (.nan s.origins, { s with origins := s.origins + 1 })

/-! ## Colors and vectors -/

/-- The color behind a reference. -/
def color (s : Store) (r : ColorRef) : Color Number :=
  s.colors[r.index]?.getD ⟨.real 0.0, .real 0.0, .real 0.0, .real 1.0⟩

/-- Change the color behind a reference. -/
def setColor (s : Store) (r : ColorRef) (c : Color Number) : Store :=
  { s with colors := s.colors.setIfInBounds r.index c }

/-- A new color. -/
def allocColor (s : Store) (c : Color Number) : ColorRef × Store :=
  (⟨s.colors.size⟩, { s with colors := s.colors.push c })

/-- The vector behind a reference. -/
def vector (s : Store) (r : VectorRef) : Vector2 Number := s.vectors[r.index]?.getD .zero

/-- Change the vector behind a reference. -/
def setVector (s : Store) (r : VectorRef) (v : Vector2 Number) : Store :=
  { s with vectors := s.vectors.setIfInBounds r.index v }

/-- A new vector. -/
def allocVector (s : Store) (v : Vector2 Number) : VectorRef × Store :=
  (⟨s.vectors.size⟩, { s with vectors := s.vectors.push v })

/-- The number in a component. -/
def component (s : Store) : Component → Number
  | .channel r k => (s.color r).get k
  | .axis r k => (s.vector r).get k

/-- Change the number in a component. -/
def setComponent (s : Store) (c : Component) (n : Number) : Store :=
  match c with
  | .channel r k => s.setColor r ((s.color r).set k n)
  | .axis r k => s.setVector r ((s.vector r).set k n)

/-! ## Lists -/

/-- The elements of a list. -/
def list (s : Store) (r : ListRef) : Array Cell := s.lists[r.index]?.getD #[]

/-- Add an element at the end of a list. -/
def pushList (s : Store) (r : ListRef) (c : Cell) : Store :=
  { s with lists := s.lists.modify r.index (·.push c) }

/-- A new list. -/
def allocList (s : Store) (cs : Array Cell) : ListRef × Store :=
  (⟨s.lists.size⟩, { s with lists := s.lists.push cs })

/-! ## Objects -/

/-- The object behind a reference. -/
def object (s : Store) (r : ObjectRef) : ObjectData := s.objects[r.index]?.getD ⟨"", .empty⟩

/-- Bind a member of an object. -/
def setMember (s : Store) (r : ObjectRef) (name : String) (c : Cell) : Store :=
  { s with objects := s.objects.modify r.index fun o =>
      { o with members := o.members.insert name c } }

/-- A new object without members. -/
def allocObject (s : Store) (typeName : String) : ObjectRef × Store :=
  (⟨s.objects.size⟩, { s with objects := s.objects.push ⟨typeName, .empty⟩ })

/-! ## Laws of cells -/

theorem get_alloc_self (s : Store) (v : Value) : (s.alloc v).2.get (s.alloc v).1 = v := by
  simp [alloc, get]

theorem get_alloc_of_lt (s : Store) (v : Value) (c : Cell) (h : c.index < s.cells.size) :
    (s.alloc v).2.get c = s.get c := by
  simp [alloc, get, Array.getElem?_push, Nat.ne_of_lt h]

theorem get_set_self (s : Store) (c : Cell) (v : Value) (h : c.index < s.cells.size) :
    (s.set c v).get c = v := by
  simp [set, get, h]

theorem get_set_ne (s : Store) (c d : Cell) (v : Value) (h : c ≠ d) :
    (s.set c v).get d = s.get d := by
  have hi : c.index ≠ d.index := fun e => h (by cases c; cases d; simp_all)
  simp [set, get, Array.getElem?_setIfInBounds_ne hi]

end Store

end CellScript
