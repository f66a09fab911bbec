/-!
# Positions in a source text

A position is a line and a column, both counted from one. Moving over a newline starts the next
line; moving over any other character goes one column on.
-/

namespace CellScript

/-- A place in a source text. -/
structure Position where
  line : Nat
  column : Nat
  deriving DecidableEq, Repr

namespace Position

/-- The place of the first character. -/
def start : Position := ⟨1, 1⟩

/-- The place after one character. -/
def step (p : Position) (c : Char) : Position :=
  if c == '\n' then ⟨p.line + 1, 1⟩ else ⟨p.line, p.column + 1⟩

/-- The place after a stretch of text. -/
def advance (p : Position) (cs : List Char) : Position := cs.foldl step p

theorem advance_nil (p : Position) : p.advance [] = p := rfl

theorem advance_append (p : Position) (as bs : List Char) :
    p.advance (as ++ bs) = (p.advance as).advance bs := by
  simp [advance, List.foldl_append]

end Position

end CellScript
