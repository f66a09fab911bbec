import CellScript.Store

/-!
# Cells that share nothing

Colors, vectors and lists are kept beside the cells, so two cells may refer to one of them, and a
change through one cell is then seen through the other.

* `Value.backing?`: the color, vector or list that a value refers to;
* `Store.IsElement`: a cell is an element of a list;
* `Store.Separate s T`: no two cells in `T` refer to the same color, vector or list, and none of
  them stands for a component;
* `Store.Unshared s T v`: the value `v` may be given to a cell in `T`. It refers to nothing, or to
  something that no cell in `T` refers to.
-/

namespace CellScript

/-- What is kept beside the cells and may be shared. -/
inductive Backing
  | color (r : ColorRef)
  | vector (r : VectorRef)
  | list (r : ListRef)
  deriving DecidableEq

namespace Value

/-- The color, vector or list that a value refers to. -/
def backing? : Value → Option Backing
  | .color r => some (.color r)
  | .vector r => some (.vector r)
  | .list r => some (.list r)
  | _ => none

/-- Whether a value stands for a component and writes through to it. -/
def isComponent : Value → Bool
  | .component _ => true
  | _ => false

end Value

namespace Store

/-- The color, vector or list is in the storage. -/
def Has (s : Store) : Backing → Prop
  | .color r => r.index < s.colors.size
  | .vector r => r.index < s.vectors.size
  | .list r => r.index < s.lists.size

/-- The cell is an element of a list. -/
def IsElement (s : Store) (c : Cell) : Prop := ∃ r : ListRef, c ∈ s.list r

/-- The cells in `T` are in the storage, none stands for a component, and what one of them refers to
is in the storage and is not what another one refers to. -/
structure Separate (s : Store) (T : Cell → Prop) : Prop where
  inRange : ∀ c, T c → c.index < s.cells.size
  plain : ∀ c, T c → (s.get c).isComponent = false
  has : ∀ c b, T c → (s.get c).backing? = some b → s.Has b
  apart : ∀ c d b, T c → T d → (s.get c).backing? = some b → (s.get d).backing? = some b → c = d

/-- The value stands for no component, and what it refers to is in the storage and is not what a
cell in `T` refers to. -/
structure Unshared (s : Store) (T : Cell → Prop) (v : Value) : Prop where
  plain : v.isComponent = false
  has : ∀ b, v.backing? = some b → s.Has b
  apart : ∀ c b, T c → v.backing? = some b → (s.get c).backing? ≠ some b

/-! ## Elements -/

theorem isElement_congr {s t : Store} (h : t.lists = s.lists) (c : Cell) :
    t.IsElement c ↔ s.IsElement c := by
  unfold IsElement list
  rw [h]

/-- The elements of a new list are elements, and no others become so. -/
theorem isElement_allocList (s : Store) (cs : Array Cell) (c : Cell) :
    (s.allocList cs).2.IsElement c ↔ s.IsElement c ∨ c ∈ cs := by
  have hlist (r : ListRef) : (s.allocList cs).2.list r =
      if r.index = s.lists.size then cs else s.list r := by
    unfold allocList list
    rw [Array.getElem?_push]
    split <;> rfl
  constructor
  · rintro ⟨r, hr⟩
    rw [hlist] at hr
    split at hr
    · exact Or.inr hr
    · exact Or.inl ⟨r, hr⟩
  · rintro (⟨r, hr⟩ | hc)
    · refine ⟨r, ?_⟩
      rw [hlist, if_neg]
      · exact hr
      · intro hsize
        simp [list, hsize] at hr
    · exact ⟨⟨s.lists.size⟩, by rw [hlist, if_pos rfl]; exact hc⟩

/-- What is added to a list becomes an element, and no other cell does. -/
theorem isElement_pushList {s : Store} {r : ListRef} {d c : Cell}
    (h : (s.pushList r d).IsElement c) : s.IsElement c ∨ c = d := by
  obtain ⟨q, hq⟩ := h
  unfold pushList list at hq
  rw [Array.getElem?_modify] at hq
  split at hq
  · next hr =>
    cases hl : s.lists[q.index]? with
    | none => simp [hl] at hq
    | some cs =>
      simp only [hl, Option.map_some, Option.getD_some, Array.mem_push] at hq
      rcases hq with hq | rfl
      · exact Or.inl ⟨q, by simpa [list, hl] using hq⟩
      · exact Or.inr rfl
  · exact Or.inl ⟨q, hq⟩

/-! ## Separate cells -/

section

variable {s t : Store} {T U : Cell → Prop} {v : Value}

theorem Separate.mono (h : s.Separate T) (hU : ∀ c, U c → T c) : s.Separate U :=
  ⟨fun c hc => h.inRange c (hU c hc), fun c hc => h.plain c (hU c hc),
    fun c b hc => h.has c b (hU c hc), fun c d b hc hd => h.apart c d b (hU c hc) (hU d hd)⟩

/-- What is beside the cells may grow. -/
theorem Separate.beside (h : s.Separate T) (hcells : t.cells = s.cells)
    (hhas : ∀ b, s.Has b → t.Has b) : t.Separate T := by
  have hget (c : Cell) : t.get c = s.get c := by
    unfold get
    rw [hcells]
  refine ⟨fun c hc => ?_, fun c hc => ?_, fun c b hc hb => ?_, fun c d b hc hd hb hb' => ?_⟩
  · rw [hcells]
    exact h.inRange c hc
  · rw [hget]
    exact h.plain c hc
  · rw [hget] at hb
    exact hhas b (h.has c b hc hb)
  · rw [hget] at hb hb'
    exact h.apart c d b hc hd hb hb'

theorem has_alloc (b : Backing) : (s.alloc v).2.Has b ↔ s.Has b := by
  cases b <;> exact Iff.rfl

theorem has_set (c : Cell) (b : Backing) : (s.set c v).Has b ↔ s.Has b := by
  cases b <;> exact Iff.rfl

/-- A new cell does not change the others. -/
theorem Separate.alloc (h : s.Separate T) (v : Value) : (s.alloc v).2.Separate T := by
  have hget (c : Cell) (hc : T c) : (s.alloc v).2.get c = s.get c :=
    s.get_alloc_of_lt v c (h.inRange c hc)
  refine ⟨fun c hc => ?_, fun c hc => ?_, fun c b hc hb => ?_, fun c d b hc hd hb hb' => ?_⟩
  · have hlt := h.inRange c hc
    simp only [Store.alloc, Array.size_push]
    omega
  · rw [hget c hc]
    exact h.plain c hc
  · rw [hget c hc] at hb
    exact (has_alloc b).2 (h.has c b hc hb)
  · rw [hget c hc] at hb
    rw [hget d hd] at hb'
    exact h.apart c d b hc hd hb hb'

/-- A new cell with a value that is not shared is separate from the others. -/
theorem Separate.alloc_unshared (h : s.Separate T) (hv : s.Unshared T v) :
    (s.alloc v).2.Separate fun c => T c ∨ c = (s.alloc v).1 := by
  have old := h.alloc v
  have hself : (s.alloc v).2.get (s.alloc v).1 = v := s.get_alloc_self v
  have hold (c : Cell) (hc : T c) : (s.alloc v).2.get c = s.get c :=
    s.get_alloc_of_lt v c (h.inRange c hc)
  refine ⟨?_, ?_, ?_, ?_⟩
  · rintro c (hc | rfl)
    · exact old.inRange c hc
    · simp [Store.alloc]
  · rintro c (hc | rfl)
    · exact old.plain c hc
    · rw [hself]
      exact hv.plain
  · rintro c b (hc | rfl) hb
    · exact old.has c b hc hb
    · rw [hself] at hb
      exact (has_alloc b).2 (hv.has b hb)
  · rintro c d b (hc | rfl) (hd | rfl) hb hb'
    · exact old.apart c d b hc hd hb hb'
    · rw [hself] at hb'
      rw [hold c hc] at hb
      exact absurd hb (hv.apart c b hc hb')
    · rw [hself] at hb
      rw [hold d hd] at hb'
      exact absurd hb' (hv.apart d b hd hb)
    · rfl

/-- A cell may be given a value that is not shared. -/
theorem Separate.set (h : s.Separate T) (hv : s.Unshared T v) (c : Cell) :
    (s.set c v).Separate T := by
  have hsize : (s.set c v).cells.size = s.cells.size := by simp [Store.set]
  have hget (d : Cell) (hd : T d) : (s.set c v).get d = if d = c then v else s.get d := by
    split
    · next hdc =>
      subst hdc
      exact s.get_set_self d v (h.inRange d hd)
    · next hdc => exact s.get_set_ne c d v (Ne.symm hdc)
  refine ⟨fun d hd => ?_, fun d hd => ?_, fun d b hd hb => ?_, fun d e b hd he hb hb' => ?_⟩
  · rw [hsize]
    exact h.inRange d hd
  · rw [hget d hd]
    split
    · exact hv.plain
    · exact h.plain d hd
  · rw [hget d hd] at hb
    refine (has_set c b).2 ?_
    split at hb
    · exact hv.has b hb
    · exact h.has d b hd hb
  · rw [hget d hd] at hb
    rw [hget e he] at hb'
    split at hb <;> split at hb'
    · next hd' he' => rw [hd', he']
    · exact absurd hb' (hv.apart e b he hb)
    · exact absurd hb (hv.apart d b hd hb')
    · exact h.apart d e b hd he hb hb'

/-! ## Values that are not shared -/

theorem Unshared.mono (h : s.Unshared T v) (hU : ∀ c, U c → T c) : s.Unshared U v :=
  ⟨h.plain, h.has, fun c b hc => h.apart c b (hU c hc)⟩

/-- A value that refers to nothing. -/
theorem unshared_plain (hc : v.isComponent = false) (hb : v.backing? = none) : s.Unshared T v :=
  ⟨hc, fun b h => by simp [hb] at h, fun c b _ h => by simp [hb] at h⟩

/-- A value that refers to something new. -/
theorem Separate.unshared_new (h : s.Separate T) {b : Backing} (hcells : t.cells = s.cells)
    (hb : v.backing? = some b) (hv : v.isComponent = false) (hold : ¬ s.Has b) (hnew : t.Has b) :
    t.Unshared T v := by
  refine ⟨hv, fun b' hb' => ?_, fun c b' hc hb' hcb => ?_⟩
  · rw [hb, Option.some.injEq] at hb'
    exact hb' ▸ hnew
  · rw [hb, Option.some.injEq] at hb'
    subst hb'
    have hget : t.get c = s.get c := by
      unfold get
      rw [hcells]
    rw [hget] at hcb
    exact hold (h.has c b hc hcb)

end

end Store

end CellScript
