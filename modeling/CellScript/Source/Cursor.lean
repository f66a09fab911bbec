import CellScript.Source.Position

/-!
# A cursor over a source text

A cursor stands between two characters: what it has passed, nearest first, what lies ahead, and its
place. It can look in both directions, and moves forward only.
-/

namespace CellScript

/-- A place in a text together with the text on both sides of it. -/
structure Cursor where
  /-- The characters behind the cursor, nearest first. -/
  passed : List Char
  /-- The characters ahead of the cursor. -/
  ahead : List Char
  place : Position

namespace Cursor

/-- The cursor at the start of a text. -/
def ofList (cs : List Char) : Cursor := ⟨[], cs, .start⟩

/-- The number of characters passed. -/
def position (c : Cursor) : Nat := c.passed.length

/-- Whether nothing lies ahead. -/
def atEnd (c : Cursor) : Bool := c.ahead.isEmpty

/-- The character at a distance: zero is the next one, minus one the last one passed. -/
def peek? (c : Cursor) : Int → Option Char
  | .ofNat k => c.ahead[k]?
  | .negSucc k => c.passed[k]?

/-- The next character and the cursor behind it. -/
def next? (c : Cursor) : Option (Char × Cursor) :=
  match c.ahead with
  | [] => none
  | x :: rest => some (x, ⟨x :: c.passed, rest, c.place.step x⟩)

/-- The message about an attempt to move beyond the end. -/
def pastEndMessage (c : Cursor) : String :=
  s!"Attempted to read past end of source at position={c.position}, line={c.place.line}"

/-- The whole text, wherever the cursor stands. -/
def text (c : Cursor) : List Char := c.passed.reverse ++ c.ahead

theorem text_ofList (cs : List Char) : (ofList cs).text = cs := rfl

theorem text_next? {c d : Cursor} {x : Char} (h : c.next? = some (x, d)) : d.text = c.text := by
  obtain ⟨passed, ahead, place⟩ := c
  cases ahead with
  | nil => simp [next?] at h
  | cons y rest =>
    simp only [next?, Option.some.injEq, Prod.mk.injEq] at h
    obtain ⟨rfl, rfl⟩ := h
    simp [text]

end Cursor

end CellScript
