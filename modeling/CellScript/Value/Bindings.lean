/-!
# Names bound in order

A table from names to things that keeps the order in which names were first bound. Binding a name
again changes what it stands for and leaves its place.
-/

namespace CellScript

/-- Names with what they are bound to, in the order of their first binding. -/
structure Bindings (α : Type) where
  entries : List (String × α)

namespace Bindings

variable {α : Type}

/-- No names. -/
def empty : Bindings α := ⟨[]⟩

/-- What a name is bound to in a list of pairs. -/
def lookup (name : String) : List (String × α) → Option α
  | [] => none
  | (n, a) :: rest => if n == name then some a else lookup name rest

/-- What a name is bound to. -/
def find? (b : Bindings α) (name : String) : Option α := lookup name b.entries

/-- Whether a name is bound. -/
def contains (b : Bindings α) (name : String) : Bool := (b.find? name).isSome

/-- Bind a name in a list of pairs, at its place or at the end. -/
def put (name : String) (a : α) : List (String × α) → List (String × α)
  | [] => [(name, a)]
  | (n, x) :: rest => if n == name then (n, a) :: rest else (n, x) :: put name a rest

/-- Bind a name. -/
def insert (b : Bindings α) (name : String) (a : α) : Bindings α := ⟨put name a b.entries⟩

/-- The bound names in order. -/
def names (b : Bindings α) : List String := b.entries.map (·.1)

/-- Bindings from pairs, the later ones winning. -/
def ofList (xs : List (String × α)) : Bindings α := xs.foldl (fun b x => b.insert x.1 x.2) empty

theorem lookup_put (name other : String) (a : α) (xs : List (String × α)) :
    lookup other (put name a xs) = if name = other then some a else lookup other xs := by
  induction xs with
  | nil => by_cases h : name = other <;> simp [put, lookup, h]
  | cons x rest ih =>
    obtain ⟨n, y⟩ := x
    by_cases hn : n = name
    · subst hn
      by_cases h : n = other <;> simp [put, lookup, h]
    · by_cases h : n = other
      · subst h
        simp [put, lookup, hn, Ne.symm hn]
      · simp [put, lookup, hn, h, ih]

/-- After binding a name, that name has its new meaning and every other its old one. -/
theorem find?_insert (b : Bindings α) (name other : String) (a : α) :
    (b.insert name a).find? other = if name = other then some a else b.find? other :=
  lookup_put name other a b.entries

end Bindings

end CellScript
