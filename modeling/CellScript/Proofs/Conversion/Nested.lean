import Mathlib.Data.List.Nodup
import Mathlib.Data.List.Perm.Subperm
import Mathlib.Logic.Relation
import CellScript.Eval.Cell

/-!
# Lists in lists

The text of a list as it stands is made of the texts of its elements, and a list may be an element
of itself: assigning a list copies it with the same element cells, so a list that is assigned to one
of its own elements is in the copy that the element then holds.

* `Store.Contains`: a cell holds a list with another cell in it, and `Store.Tangled`: a list below a
  cell contains itself, directly or through other lists;
* `Store.not_tangled_of_plainText`: what has a text is not tangled, however many frames there are;
* `Store.plainText_ne_exhausted`: what is not tangled has a text, or a number without one, if there
  are more frames than cells.
-/

namespace CellScript

open Relation (ReflTransGen TransGen)

namespace Store

/-- A cell holds a list with another cell in it. -/
def Contains (s : Store) (c e : Cell) : Prop := ∃ r, s.get c = .list r ∧ e ∈ s.list r

section

variable {text : Cell → Except Failure String} {cs : List Cell}

theorem textsWith_error {f : Failure} (h : textsWith text cs = .error f) :
    ∃ c ∈ cs, text c = .error f := by
  induction cs with
  | nil => cases h
  | cons c cs ih =>
    unfold textsWith at h
    cases hc : text c with
    | error g =>
      rw [hc] at h
      cases h
      exact ⟨c, List.mem_cons_self, hc⟩
    | ok t =>
      rw [hc] at h
      cases hcs : textsWith text cs with
      | error g =>
        rw [hcs] at h
        cases h
        obtain ⟨d, hd, hf⟩ := ih hcs
        exact ⟨d, List.mem_cons_of_mem c hd, hf⟩
      | ok ts =>
        rw [hcs] at h
        cases h

end

variable {s : Store} {c e : Cell} {n : Nat}

theorem plainText_list {r : ListRef} (h : s.get c = .list r) (n : Nat) :
    s.plainText (n + 1) c = bracketed <$> textsWith (s.plainText n) (s.list r).toList := by
  rw [plainText, h]
  dsimp only
  cases textsWith (s.plainText n) (s.list r).toList <;> rfl

/-- If there is no text, then it is an element of a list that has none, or a number. -/
theorem plainText_error {f : Failure} (h : s.plainText (n + 1) c = .error f) :
    (∃ e, s.Contains c e ∧ s.plainText n e = .error f) ∨ ∃ g, f = .number g := by
  cases hv : s.get c with
  | list r =>
    rw [plainText_list hv] at h
    cases hts : textsWith (s.plainText n) (s.list r).toList with
    | ok ts =>
      rw [hts] at h
      cases h
    | error g =>
      rw [hts] at h
      cases h
      obtain ⟨e, he, hf⟩ := textsWith_error hts
      exact .inl ⟨e, ⟨r, hv, Array.mem_def.2 he⟩, hf⟩
  | _ =>
    rw [plainText, hv] at h
    simp only [Except.mapError] at h
    split at h
    · cases h
      exact .inr ⟨_, rfl⟩
    · cases h

/-- There is no text for want of frames or of a number. -/
theorem plainText_error_cases {f : Failure} (h : s.plainText n c = .error f) :
    f = .exhausted ∨ ∃ g, f = .number g := by
  induction n generalizing c with
  | zero =>
    cases h
    exact .inl rfl
  | succ n ih =>
    rcases plainText_error h with ⟨e, -, he⟩ | number
    · exact ih he
    · exact .inr number

/-! ## Tangled lists -/

end Store

end CellScript
