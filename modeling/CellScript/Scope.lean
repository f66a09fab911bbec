import CellScript.Value.Basic

/-!
# Scopes

A scope binds names to cells and may declare names as global. Scopes form chains, innermost first: a
name is looked for from the front, and a declaration that it is global ends the search. Global
scopes also hold the types.
-/

namespace CellScript

/-- A table of names. -/
structure Scope where
  items : Bindings Cell
  /-- Cells that belong to the scope without a name. -/
  anonymous : List Cell
  /-- Names declared as global in this scope. -/
  globalNames : List String
  /-- Types, used in global scopes only. -/
  types : Bindings ObjectType

namespace Scope

/-- A scope without names. -/
def empty : Scope := ⟨.empty, [], [], .empty⟩

/-- Bind a name. -/
def add (s : Scope) (name : String) (c : Cell) : Scope := { s with items := s.items.insert name c }

/-- Keep a cell without a name. -/
def addAnonymous (s : Scope) (c : Cell) : Scope := { s with anonymous := s.anonymous ++ [c] }

/-- Whether the scope itself binds a name. -/
def has (s : Scope) (name : String) : Bool := s.items.contains name

/-- Declare a name as global. -/
def declareGlobal (s : Scope) (name : String) : Scope :=
  if s.globalNames.contains name then s else { s with globalNames := name :: s.globalNames }

/-- Look for a name along a chain of scopes, innermost first. -/
def findIn (name : String) : List Scope → Option Cell
  | [] => none
  | s :: outer =>
    if s.globalNames.contains name then none
    else match s.items.find? name with
      | some c => some c
      | none => findIn name outer

/-- Whether a scope of a chain declares a name as global. -/
def declaredGlobal (name : String) (chain : List Scope) : Bool :=
  chain.any (·.globalNames.contains name)

/-- The names of a scope on one line. -/
def outline (s : Scope) : String := "Scope(" ++ String.intercalate ", " s.items.names ++ ")"

end Scope

end CellScript
