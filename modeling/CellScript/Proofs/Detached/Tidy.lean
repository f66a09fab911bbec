import CellScript.Proofs.Closed
import CellScript.Proofs.Detached.Storage

/-!
# Places that share nothing

A place is a global name or a member of an object. No two places have one cell, no place has the
cell of a list element, and the cells of places and list elements are separate.

While a script runs more has to be said. The names that a realization binds become members at its
end, so their cells are on the way to a place: those of the innermost scope are its owned cells,
and those of the scopes around it are pending, like elements of a list that is not there yet. The
names that a scope begins with, as arguments or members, may stand for any cell and are exempt.

* `State.place?`: the cell of a place;
* `State.owned X`: the cells of the innermost scope's names that are not exempt by `X`;
* `State.Tidy X P`: with these and with the pending cells in `P`, nothing is shared;
* one lemma for each way in which a pending cell gets to where it belongs.
-/

namespace CellScript

/-- A global name of a scope, which is counted from the bottom, or a member of an object. -/
inductive Place
  | global (layer : Nat) (name : String)
  | member (r : ObjectRef) (name : String)
  deriving DecidableEq

namespace State

/-- The scope with the given number of scopes below it. -/
def layer? : List Scope → Nat → Option Scope
  | [], _ => none
  | scope :: below, i => if i = below.length then some scope else layer? below i

/-- The cell of a place. -/
def place? (s : State) : Place → Option Cell
  | .global i name => (layer? s.globals i).bind (·.items.find? name)
  | .member r name => (s.store.object r).members.find? name

end State

/-- The cells of the names that are not exempt. -/
def Scope.owned (X : String → Bool) (a : Scope) : List Cell :=
  (a.items.entries.filter fun e => !X e.1).map (·.2)

namespace State

/-- The cells of the innermost scope's names that are not exempt. -/
def owned (X : String → Bool) (s : State) : List Cell :=
  match s.locals with
  | [] => []
  | f :: _ => f.scope.owned X

/-- The cell has a place, or is on the way to one. -/
def Held (X : String → Bool) (P : Cell → Prop) (s : State) (c : Cell) : Prop :=
  (∃ p, s.place? p = some c) ∨ c ∈ s.owned X ∨ P c

/-- The cell is held or is an element of a list. -/
def Tracked (X : String → Bool) (P : Cell → Prop) (s : State) (c : Cell) : Prop :=
  s.Held X P c ∨ s.store.IsElement c

/-- All cells that are held are different ones, none of them is an element, and the cells that are
held and the elements share nothing. -/
structure Tidy (X : String → Bool) (P : Cell → Prop) (s : State) : Prop where
  places : ∀ p q c, s.place? p = some c → s.place? q = some c → p = q
  owned : (s.owned X).Nodup
  named : ∀ p c, s.place? p = some c → c ∉ s.owned X ∧ ¬ P c
  pending : ∀ c, c ∈ s.owned X → ¬ P c
  elements : ∀ c, s.Held X P c → ¬ s.store.IsElement c
  separate : s.store.Separate (s.Tracked X P)

theorem owned_congr {X : String → Bool} {s t : State} (h : t.locals = s.locals) :
    t.owned X = s.owned X := by
  unfold owned
  rw [h]

theorem owned_sublist {X : String → Bool} {s t : State} (h : t.owned X = s.owned X) :
    (t.owned X).Sublist (s.owned X) := h ▸ List.Sublist.refl _

theorem tracked_mono {X : String → Bool} {P : Cell → Prop} {s t : State}
    (hp : ∀ p, t.place? p = s.place? p) (ho : t.owned X = s.owned X)
    (he : ∀ c, t.store.IsElement c → s.store.IsElement c) (c : Cell) (h : t.Tracked X P c) :
    s.Tracked X P c := by
  rcases h with (⟨p, hc⟩ | hc | hc) | hc
  · exact Or.inl (Or.inl ⟨p, hp p ▸ hc⟩)
  · exact Or.inl (Or.inr (Or.inl (ho ▸ hc)))
  · exact Or.inl (Or.inr (Or.inr hc))
  · exact Or.inr (he c hc)

namespace Tidy

variable {X Y : String → Bool} {P R : Cell → Prop} {s t : State}

/-- Fewer places, owned cells, pending cells and elements. -/
theorem shrink (h : s.Tidy X P) (hp : ∀ p c, t.place? p = some c → s.place? p = some c)
    (ho : (t.owned Y).Sublist (s.owned X)) (hP : ∀ c, R c → P c)
    (he : ∀ c, t.store.IsElement c → s.store.IsElement c)
    (hs : t.store.Separate (s.Tracked X P)) : t.Tidy Y R := by
  have held (c : Cell) (hc : t.Held Y R c) : s.Held X P c := by
    rcases hc with ⟨p, hc⟩ | hc | hc
    · exact Or.inl ⟨p, hp p c hc⟩
    · exact Or.inr (Or.inl (ho.subset hc))
    · exact Or.inr (Or.inr (hP c hc))
  refine ⟨fun p q c hpc hqc => h.places p q c (hp p c hpc) (hp q c hqc), h.owned.sublist ho,
    fun p c hpc => ?_, fun c hc hR => h.pending c (ho.subset hc) (hP c hR),
    fun c hc hel => h.elements c (held c hc) (he c hel), hs.mono fun c hc => ?_⟩
  · obtain ⟨howned, hpending⟩ := h.named p c (hp p c hpc)
    exact ⟨fun hc => howned (ho.subset hc), fun hR => hpending (hP c hR)⟩
  · exact hc.imp (held c) (he c)

/-- The storage changes, and the places, scopes and lists do not. -/
theorem same (h : s.Tidy X P) (hg : t.globals = s.globals) (hl : t.locals = s.locals)
    (ho : t.store.objects = s.store.objects) (he : ∀ c, t.store.IsElement c → s.store.IsElement c)
    (hs : t.store.Separate (s.Tracked X P)) : t.Tidy X P := by
  refine h.shrink (fun p c hp => ?_) (owned_sublist (owned_congr hl)) (fun _ => id) he hs
  cases p with
  | global i name => simpa only [place?, hg] using hp
  | member r name => simpa only [place?, Store.object, ho] using hp

/-- Nothing of the storage, the global scopes and the local scopes changes. -/
theorem calm (h : s.Tidy X P) (hg : t.globals = s.globals) (hl : t.locals = s.locals)
    (hs : t.store = s.store) : t.Tidy X P :=
  h.same hg hl (by rw [hs]) (fun c hc => hs ▸ hc) (hs ▸ h.separate)

/-- Fewer pending cells. -/
theorem mono (h : s.Tidy X P) (hP : ∀ c, R c → P c) : s.Tidy X R :=
  h.shrink (fun _ _ => id) (List.Sublist.refl _) hP (fun _ => id) h.separate

/-! ## New cells -/

/-- A new cell that goes nowhere. -/
theorem alloc (h : s.Tidy X P) (v : Value) :
    State.Tidy X P { s with store := (s.store.alloc v).2 } :=
  h.same rfl rfl rfl (fun _ => (Store.isElement_congr rfl _).1) (h.separate.alloc v)

/-- A new cell is not held, and no element. -/
theorem not_tracked_alloc (h : s.Tidy X P) (v : Value) : ¬ s.Tracked X P (s.store.alloc v).1 :=
  fun hc => Nat.lt_irrefl _ (h.separate.inRange _ hc)

/-- A new cell with a value that is not shared may be on the way. -/
theorem alloc_pending (h : s.Tidy X P) {v : Value}
    (hv : s.store.Unshared (s.Tracked X P) v) :
    State.Tidy X (fun c => P c ∨ c = (s.store.alloc v).1)
      { s with store := (s.store.alloc v).2 } := by
  have new := h.not_tracked_alloc v
  have separate := h.separate.alloc_unshared hv
  generalize (s.store.alloc v).1 = d at new separate
  have held (c : Cell)
      (hc : State.Held X (fun c => P c ∨ c = d) { s with store := (s.store.alloc v).2 } c) :
      s.Held X P c ∨ c = d := by
    rcases hc with hc | hc | hc | hc
    · exact Or.inl (Or.inl hc)
    · exact Or.inl (Or.inr (Or.inl hc))
    · exact Or.inl (Or.inr (Or.inr hc))
    · exact Or.inr hc
  refine ⟨h.places, h.owned, fun p c hp => ?_, fun c hc => ?_, fun c hc hel => ?_,
    separate.mono fun c hc => ?_⟩
  · refine ⟨(h.named p c hp).1, ?_⟩
    rintro (hP | rfl)
    · exact (h.named p c hp).2 hP
    · exact new (Or.inl (Or.inl ⟨p, hp⟩))
  · rintro (hP | rfl)
    · exact h.pending c hc hP
    · exact new (Or.inl (Or.inr (Or.inl hc)))
  · have hel' := (Store.isElement_congr rfl c).1 hel
    rcases held c hc with hc | rfl
    · exact h.elements c hc hel'
    · exact new (Or.inr hel')
  · rcases hc with hc | hc
    · exact (held c hc).imp_left Or.inl
    · exact Or.inl (Or.inr ((Store.isElement_congr rfl c).1 hc))

/-! ## Pending cells arrive -/

/-- A pending cell gets a place. -/
theorem bind_place {c : Cell} (h : s.Tidy X fun d => P d ∨ d = c) (hc : ¬ P c) {p : Place}
    (hp : ∀ q d, t.place? q = some d → s.place? q = some d ∨ q = p ∧ d = c)
    (hl : t.locals = s.locals) (hlists : t.store.lists = s.store.lists)
    (hcells : t.store.cells = s.store.cells) (hhas : ∀ b, s.store.Has b → t.store.Has b) :
    t.Tidy X P := by
  have howned : t.owned X = s.owned X := owned_congr hl
  have held (d : Cell) (hd : t.Held X P d) : s.Held X (fun d => P d ∨ d = c) d := by
    rcases hd with ⟨q, hq⟩ | hd | hd
    · rcases hp q d hq with hq | ⟨-, rfl⟩
      · exact Or.inl ⟨q, hq⟩
      · exact Or.inr (Or.inr (Or.inr rfl))
    · exact Or.inr (Or.inl (howned ▸ hd))
    · exact Or.inr (Or.inr (Or.inl hd))
  refine ⟨fun q r d hq hr => ?_, howned ▸ h.owned, fun q d hq => ?_, fun d hd hP => ?_,
    fun d hd hel => ?_, ?_⟩
  · rcases hp q d hq with hq | ⟨rfl, rfl⟩ <;> rcases hp r d hr with hr | ⟨rfl, hd⟩
    · exact h.places q r d hq hr
    · exact absurd (Or.inr hd) (h.named q d hq).2
    · exact absurd (Or.inr rfl) (h.named r d hr).2
    · rfl
  · rw [howned]
    rcases hp q d hq with hq | ⟨-, rfl⟩
    · exact ⟨(h.named q d hq).1, fun hP => (h.named q d hq).2 (Or.inl hP)⟩
    · exact ⟨fun hd => h.pending d hd (Or.inr rfl), hc⟩
  · exact h.pending d (howned ▸ hd) (Or.inl hP)
  · exact h.elements d (held d hd) ((Store.isElement_congr hlists d).1 hel)
  · refine (h.separate.beside hcells hhas).mono fun d hd => ?_
    exact hd.imp (held d) (Store.isElement_congr hlists d).1

end Tidy

/-- Where a member was bound. -/
theorem place?_setMember {s : State} {r : ObjectRef} {name : String} {c d : Cell} {q : Place}
    (h : State.place? { s with store := s.store.setMember r name c } q = some d) :
    s.place? q = some d ∨ q = .member r name ∧ d = c := by
  cases q with
  | global i other => exact Or.inl h
  | member r' other =>
    simp only [place?, Store.object, Store.setMember, Array.getElem?_modify] at h
    split at h
    · next hr =>
      cases ho : s.store.objects[r'.index]? with
      | none => simp [ho, Bindings.find?, Bindings.empty, Bindings.lookup] at h
      | some o =>
        simp only [ho, Option.map_some, Option.getD_some, Bindings.find?_insert] at h
        split at h
        · next hname =>
          refine Or.inr ⟨?_, (Option.some.inj h).symm⟩
          cases r
          cases r'
          simp_all
        · exact Or.inl (by simpa [place?, Store.object, ho] using h)
    · exact Or.inl h

/-- Where a global name was bound. -/
theorem place?_addGlobal {s : State} {top : Scope} {below : List Scope} {name : String}
    {c d : Cell} {q : Place} (hg : s.globals = top :: below)
    (h : State.place? { s with globals := top.add name c :: below } q = some d) :
    s.place? q = some d ∨ q = .global below.length name ∧ d = c := by
  cases q with
  | member r other => exact Or.inl h
  | global i other =>
    simp only [place?, layer?] at h
    split at h
    · next hi =>
      simp only [Option.bind_some, Scope.add, Bindings.find?_insert] at h
      split at h
      · next hname => exact Or.inr ⟨by rw [hi, hname], (Option.some.inj h).symm⟩
      · exact Or.inl (by simpa [place?, hg, layer?, hi] using h)
    · next hi => exact Or.inl (by simpa [place?, hg, layer?, hi] using h)

namespace Tidy

variable {X Y : String → Bool} {P : Cell → Prop} {s t u : State} {c : Cell}

/-- A pending cell becomes a member. -/
theorem bind_member (h : s.Tidy X fun d => P d ∨ d = c) (hc : ¬ P c) (r : ObjectRef)
    (name : String) : State.Tidy X P { s with store := s.store.setMember r name c } :=
  h.bind_place hc (fun _ _ => place?_setMember) rfl rfl rfl fun b hb => by cases b <;> exact hb

/-- A pending cell gets a global name. -/
theorem bind_global (h : s.Tidy X fun d => P d ∨ d = c) (hc : ¬ P c) {top : Scope}
    {below : List Scope} (hg : s.globals = top :: below) (name : String) :
    State.Tidy X P { s with globals := top.add name c :: below } :=
  h.bind_place hc (fun _ _ => place?_addGlobal hg) rfl rfl rfl fun _ hb => hb

end Tidy

end State

/-! ### Local names -/

namespace Scope

variable {X : String → Bool} {a : Scope} {name : String} {c d : Cell}

theorem mem_owned_add (h : d ∈ (a.add name c).owned X) : d ∈ a.owned X ∨ d = c := by
  obtain ⟨e, he, rfl⟩ := List.mem_map.1 h
  obtain ⟨hput, hX⟩ := List.mem_filter.1 he
  rcases Bindings.mem_put hput with rfl | hold
  · exact Or.inr rfl
  · exact Or.inl (List.mem_map.2 ⟨e, List.mem_filter.2 ⟨hold, hX⟩, rfl⟩)

theorem nodup_owned_add (h : (a.owned X).Nodup) (hc : c ∉ a.owned X) :
    ((a.add name c).owned X).Nodup := by
  have go : ∀ es : List (String × Cell),
      ((es.filter fun e => !X e.1).map (·.2)).Nodup →
      c ∉ (es.filter fun e => !X e.1).map (·.2) →
      (((Bindings.put name c es).filter fun e => !X e.1).map (·.2)).Nodup := by
    intro es
    induction es with
    | nil =>
      intro _ _
      cases hX : X name <;> simp [Bindings.put, hX]
    | cons e rest ih =>
      obtain ⟨n, x⟩ := e
      intro hes hc
      by_cases hn : n = name
      · subst hn
        cases hX : X n with
        | true => simpa [Bindings.put, hX] using hes
        | false =>
          simp only [Bindings.put, beq_self_eq_true, if_true, hX, Bool.not_false,
            List.filter_cons_of_pos, List.map_cons, List.nodup_cons, List.mem_cons, not_or]
            at hes hc ⊢
          exact ⟨hc.2, hes.2⟩
      · simp only [Bindings.put, beq_iff_eq, hn, if_false]
        cases hX : X n with
        | true =>
          simp only [hX, Bool.not_true, Bool.false_eq_true, not_false_eq_true,
            List.filter_cons_of_neg] at hes hc ⊢
          exact ih hes hc
        | false =>
          simp only [hX, Bool.not_false, List.filter_cons_of_pos, List.map_cons, List.nodup_cons,
            List.mem_cons, not_or] at hes hc ⊢
          refine ⟨fun hx => ?_, ih hes.2 hc.2⟩
          have added : x ∈ (Scope.add ⟨⟨rest⟩, [], [], .empty⟩ name c).owned X := hx
          rcases mem_owned_add added with hx | hx
          · exact hes.1 hx
          · exact hc.1 hx.symm
  exact go a.items.entries h hc

end Scope

namespace State.Tidy

variable {X Y : String → Bool} {P : Cell → Prop} {s t u : State} {c : Cell}

/-- A pending cell gets a name in the innermost scope. -/
theorem bind_local (h : s.Tidy X fun d => P d ∨ d = c) (hc : ¬ P c) (name : String) :
    (s.mapTop (·.add name c)).Tidy X P := by
  unfold State.mapTop
  split
  · exact h.mono fun _ => Or.inl
  · next top below hl =>
    have hs : s.owned X = top.scope.owned X := by
      unfold State.owned
      rw [hl]
    let t : State := { s with locals := { top with scope := top.scope.add name c } :: below }
    have ht (d : Cell) (hd : d ∈ t.owned X) : d ∈ s.owned X ∨ d = c := by
      rw [hs]
      exact Scope.mem_owned_add hd
    have held (d : Cell) (hd : t.Held X P d) : s.Held X (fun d => P d ∨ d = c) d := by
      rcases hd with hd | hd | hd
      · exact Or.inl hd
      · exact (ht d hd).elim (fun hd => Or.inr (Or.inl hd)) fun hd => Or.inr (Or.inr (Or.inr hd))
      · exact Or.inr (Or.inr (Or.inl hd))
    have hnew : c ∉ s.owned X := fun hd => h.pending c hd (Or.inr rfl)
    refine ⟨h.places, ?_, fun p d hp => ⟨fun hd => ?_, fun hP => (h.named p d hp).2 (Or.inl hP)⟩,
      fun d hd hP => ?_, fun d hd => h.elements d (held d hd),
      h.separate.mono fun d hd => hd.imp_left (held d)⟩
    · exact Scope.nodup_owned_add (hs ▸ h.owned) (hs ▸ hnew)
    · rcases ht d hd with hd | rfl
      · exact (h.named p d hp).1 hd
      · exact (h.named p d hp).2 (Or.inr rfl)
    · rcases ht d hd with hd | rfl
      · exact h.pending d hd (Or.inl hP)
      · exact hc hP

/-! ### Elements -/

/-- Pending cells become elements. -/
theorem bind_elements {T : Cell → Prop} (h : s.Tidy X fun d => P d ∨ T d) (hT : ∀ d, T d → ¬ P d)
    (hg : t.globals = s.globals) (hl : t.locals = s.locals)
    (hobjects : t.store.objects = s.store.objects) (hcells : t.store.cells = s.store.cells)
    (hhas : ∀ b, s.store.Has b → t.store.Has b)
    (hlists : ∀ d, t.store.IsElement d → s.store.IsElement d ∨ T d) : t.Tidy X P := by
  have hplace (p : Place) : t.place? p = s.place? p := by
    cases p with
    | global i name => simp only [place?, hg]
    | member r name => simp only [place?, Store.object, hobjects]
  have held (d : Cell) (hd : t.Held X P d) : s.Held X P d := by
    rcases hd with ⟨p, hp⟩ | hd | hd
    · exact Or.inl ⟨p, hplace p ▸ hp⟩
    · exact Or.inr (Or.inl (owned_congr hl ▸ hd))
    · exact Or.inr (Or.inr hd)
  have wider (d : Cell) (hd : s.Held X P d) : s.Held X (fun d => P d ∨ T d) d :=
    hd.imp_right (Or.imp_right Or.inl)
  refine ⟨fun p q d hp hq => ?_, owned_congr hl ▸ h.owned, fun p d hp => ?_, fun d hd hP => ?_,
    fun d hd hel => ?_, (h.separate.beside hcells hhas).mono fun d hd => ?_⟩
  · exact h.places p q d (hplace p ▸ hp) (hplace q ▸ hq)
  · obtain ⟨hown, hpend⟩ := h.named p d (hplace p ▸ hp)
    exact ⟨owned_congr hl ▸ hown, fun hP => hpend (Or.inl hP)⟩
  · exact h.pending d (owned_congr hl ▸ hd) (Or.inl hP)
  · rcases hlists d hel with hel | hnew
    · exact h.elements d (wider d (held d hd)) hel
    · rcases held d hd with ⟨p, hp⟩ | hown | hP
      · exact (h.named p d hp).2 (Or.inr hnew)
      · exact h.pending d hown (Or.inr hnew)
      · exact hT d hnew hP
  · rcases hd with hd | hel
    · exact Or.inl (wider d (held d hd))
    · exact (hlists d hel).elim Or.inr fun hnew => Or.inl (Or.inr (Or.inr (Or.inr hnew)))

/-! ### Scopes -/

/-- In a scope of its own, the owned cells of the scope around are pending. -/
theorem enter (h : s.Tidy X P) (hg : t.globals = s.globals) (hs : t.store = s.store)
    (ho : t.owned Y = []) : t.Tidy Y fun c => P c ∨ c ∈ s.owned X := by
  have hplace (p : Place) : t.place? p = s.place? p := by
    cases p with
    | global i name => simp only [place?, hg]
    | member r name => simp only [place?, hs]
  have held (d : Cell) (hd : t.Held Y (fun c => P c ∨ c ∈ s.owned X) d) : s.Held X P d := by
    rcases hd with ⟨p, hp⟩ | hd | hd | hd
    · exact Or.inl ⟨p, hplace p ▸ hp⟩
    · rw [ho] at hd
      cases hd
    · exact Or.inr (Or.inr hd)
    · exact Or.inr (Or.inl hd)
  refine ⟨fun p q d hp hq => ?_, ho ▸ List.nodup_nil, fun p d hp => ?_, fun d hd => ?_,
    fun d hd => ?_, ?_⟩
  · exact h.places p q d (hplace p ▸ hp) (hplace q ▸ hq)
  · obtain ⟨hown, hpend⟩ := h.named p d (hplace p ▸ hp)
    exact ⟨ho ▸ List.not_mem_nil, fun hd => hd.elim hpend hown⟩
  · rw [ho] at hd
    cases hd
  · rw [hs]
    exact h.elements d (held d hd)
  · rw [hs]
    refine h.separate.mono fun d hd => ?_
    rw [Tracked, hs] at hd
    exact hd.imp_left (held d)

/-- Back in the scope around, the owned cells of the inner scope are pending. -/
theorem leave (h : s.Tidy X P) (ht : t.Tidy Y fun c => P c ∨ c ∈ s.owned X)
    (hg : u.globals = t.globals) (hs : u.store = t.store) (hl : u.locals = s.locals) :
    u.Tidy X fun c => P c ∨ c ∈ t.owned Y := by
  have hplace (p : Place) : u.place? p = t.place? p := by
    cases p with
    | global i name => simp only [place?, hg]
    | member r name => simp only [place?, hs]
  have ho : u.owned X = s.owned X := owned_congr hl
  have held (d : Cell) (hd : u.Held X (fun c => P c ∨ c ∈ t.owned Y) d) :
      t.Held Y (fun c => P c ∨ c ∈ s.owned X) d := by
    rcases hd with ⟨p, hp⟩ | hd | hd | hd
    · exact Or.inl ⟨p, hplace p ▸ hp⟩
    · exact Or.inr (Or.inr (Or.inr (ho ▸ hd)))
    · exact Or.inr (Or.inr (Or.inl hd))
    · exact Or.inr (Or.inl hd)
  refine ⟨fun p q d hp hq => ?_, ho ▸ h.owned, fun p d hp => ?_, fun d hd => ?_, fun d hd => ?_, ?_⟩
  · exact ht.places p q d (hplace p ▸ hp) (hplace q ▸ hq)
  · obtain ⟨hown, hpend⟩ := ht.named p d (hplace p ▸ hp)
    exact ⟨fun hd => hpend (Or.inr (ho ▸ hd)), fun hd => hd.elim (hpend ∘ Or.inl) hown⟩
  · have hd' : d ∈ s.owned X := ho ▸ hd
    exact fun hP => hP.elim (h.pending d hd') fun hin => ht.pending d hin (Or.inr hd')
  · rw [hs]
    exact ht.elements d (held d hd)
  · rw [hs]
    refine ht.separate.mono fun d hd => ?_
    rw [Tracked, hs] at hd
    exact hd.imp_left (held d)

end State.Tidy

end CellScript
