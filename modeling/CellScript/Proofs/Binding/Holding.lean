import CellScript.Proofs.Binding.Layers

/-!
# Members stay bound

An object only gains members. The one that is being realized is an exception, since it is told its
parent whatever has been bound before, but it is an object that the run has just made. So for all
objects that there are at some point, what is bound stays bound from then on.

The scope that a method is run in copies the members of its object name by name, so it binds each
member to its cell as long as no name is there twice.

* `State.Distinct`: no object has two members of one name;
* `ProgramOrder.holding N`: the members of the first `N` objects stay bound;
* `Layers.holding N`, `holding N`: the scopes stay steady too, and this is a logic of all programs;
* `Exec.memberScope_eq`, `scopeOf_find?`: the scope of an object's members binds them all.
-/

namespace CellScript

open Exec (Along Layered)

/-! ## Distinct names -/

namespace Bindings

variable {α : Type}

theorem mem_names_put {name other : String} {a : α} {xs : List (String × α)}
    (h : other ∈ (put name a xs).map (·.1)) : other = name ∨ other ∈ xs.map (·.1) := by
  obtain ⟨e, he, rfl⟩ := List.mem_map.1 h
  rcases mem_put he with rfl | he
  · exact .inl rfl
  · exact .inr (List.mem_map_of_mem he)

/-- Binding a name does not make a second entry for it. -/
theorem nodup_insert {b : Bindings α} (h : b.names.Nodup) (name : String) (a : α) :
    (b.insert name a).names.Nodup := by
  obtain ⟨xs⟩ := b
  simp only [names, insert] at h ⊢
  induction xs with
  | nil => simp [put]
  | cons x rest ih =>
    obtain ⟨n, y⟩ := x
    simp only [List.map_cons, List.nodup_cons] at h
    by_cases hn : n = name
    · simpa [put, hn] using h
    · simp only [put, beq_iff_eq, hn, if_false, List.map_cons, List.nodup_cons]
      refine ⟨fun found => ?_, ih h.2⟩
      rcases mem_names_put found with same | old
      · exact hn same
      · exact h.1 old

theorem mem_of_find? {b : Bindings α} {name : String} {a : α} (h : b.find? name = some a) :
    (name, a) ∈ b.entries :=
  mem_of_lookup h

end Bindings

/-- No object has two members of one name. -/
def State.Distinct (s : State) : Prop := ∀ r, (s.store.object r).members.names.Nodup

/-- The members of the first `N` objects stay bound to their cells. -/
structure State.HoldsMembers (N : Nat) (s t : State) : Prop where
  objects : s.store.objects.size ≤ t.store.objects.size
  distinct : s.Distinct → t.Distinct
  members (r : ObjectRef) : r.index < N →
    (s.store.object r).members.Extends (t.store.object r).members

namespace State

variable {N M : Nat} {s t u : State}

theorem Distinct.congr (h : s.Distinct) (ho : t.store.objects = s.store.objects) :
    t.Distinct := fun r => by
  unfold Store.object
  rw [ho]
  exact h r

theorem HoldsMembers.of_eq (ho : t.store.objects = s.store.objects) : s.HoldsMembers N t where
  objects := Nat.le_of_eq (congrArg Array.size ho).symm
  distinct h := h.congr ho
  members r _ := by
    unfold Store.object
    rw [ho]
    exact .refl _

theorem HoldsMembers.trans (h : s.HoldsMembers N t) (h' : t.HoldsMembers N u) :
    s.HoldsMembers N u where
  objects := Nat.le_trans h.objects h'.objects
  distinct hs := h'.distinct (h.distinct hs)
  members r hr := (h.members r hr).trans (h'.members r hr)

theorem HoldsMembers.mono (h : s.HoldsMembers N t) (hM : M ≤ N) : s.HoldsMembers M t where
  objects := h.objects
  distinct := h.distinct
  members r hr := h.members r (Nat.lt_of_lt_of_le hr hM)

end State

/-! ## Objects that are made and filled -/

namespace Store

variable (s : Store)

/-- There are no members where there is no object. -/
theorem find?_of_le {r : ObjectRef} (h : s.objects.size ≤ r.index) (name : String) :
    (s.object r).members.find? name = none := by
  unfold object
  rw [Array.getElem?_eq_none h]
  rfl

theorem extends_allocObject (typeName : String) (r : ObjectRef) :
    (s.object r).members.Extends ((s.allocObject typeName).2.object r).members := by
  intro name c found
  have inside : r.index < s.objects.size := by
    refine Nat.lt_of_not_le fun outside => ?_
    rw [s.find?_of_le outside name] at found
    cases found
  have same : (s.allocObject typeName).2.object r = s.object r := by
    simp [object, allocObject, Array.getElem?_push_lt inside, inside]
  rwa [same]

/-- An object gets the member, unless it is not there, and no other object does. -/
theorem members_setMember_cases (r : ObjectRef) (name : String) (c : Cell) (q : ObjectRef) :
    (q = r ∧ ((s.setMember r name c).object q).members = (s.object q).members.insert name c) ∨
      ((s.setMember r name c).object q).members = (s.object q).members := by
  rcases Nat.lt_or_ge r.index s.objects.size with inside | outside
  · by_cases hq : q.index = r.index
    · obtain rfl : q = r := by
        cases q
        cases r
        exact congrArg _ hq
      exact .inl ⟨rfl, s.members_setMember q name c inside⟩
    · exact .inr (congrArg _ (s.object_setMember_of_ne r q name c hq))
  · exact .inr (congrArg _ (s.object_setMember_of_le r name c outside q))

/-- An object is given a member that it does not have. -/
theorem extends_setMember {r : ObjectRef} {name : String}
    (h : (s.object r).members.find? name = none) (c : Cell) (q : ObjectRef) :
    (s.object q).members.Extends ((s.setMember r name c).object q).members := by
  rcases s.members_setMember_cases r name c q with ⟨rfl, given⟩ | same
  · rw [given]
    exact .insert h c
  · rw [same]
    exact .refl _

end Store

namespace State.Distinct

variable {s : State} (h : s.Distinct)

include h

theorem allocObject (typeName : String) :
    State.Distinct { s with store := (s.store.allocObject typeName).2 } := fun r => by
  rcases s.store.object_allocObject r typeName with same | new
  · exact (congrArg (·.names.Nodup) same).mpr (h r)
  · exact (congrArg (·.names.Nodup) new).mpr List.nodup_nil

theorem setMember (r : ObjectRef) (name : String) (c : Cell) :
    State.Distinct { s with store := s.store.setMember r name c } := fun q => by
  change ((s.store.setMember r name c).object q).members.names.Nodup
  rcases s.store.members_setMember_cases r name c q with ⟨rfl, given⟩ | same
  · rw [given]
    exact Bindings.nodup_insert (h q) name c
  · rw [same]
    exact h q

end State.Distinct

/-- The members of the first `N` objects stay bound. Other objects may be filled. -/
def ProgramOrder.holding (N : Nat) : ProgramOrder where
  Le := State.HoldsMembers N
  From s := N ≤ s.store.objects.size ∧ s.Distinct
  Made r := N ≤ r.index
  refl _ := .of_eq rfl
  trans := .trans
  keeps hs h := ⟨Nat.le_trans hs.1 h.objects, h.distinct hs.2⟩
  shared h := .of_eq h.objects
  anonymous _ _ := .of_eq rfl
  addType _ _ _ := .of_eq rfl
  addGlobal _ _ _ := .of_eq rfl
  allocObject s typeName :=
    ⟨by simp [Store.allocObject], fun hs => hs.allocObject typeName,
      fun r _ => s.store.extends_allocObject typeName r⟩
  made hs := hs.1
  setMember {s r name c} h _ := by
    refine ⟨Nat.le_of_eq (s.store.objects_setMember_size r name c).symm,
      fun hs => hs.setMember r name c, fun q hq => ?_⟩
    rcases h with made | missing
    · rw [s.store.object_setMember_of_ne r q name c (by omega)]
      exact .refl _
    · exact s.store.extends_setMember missing c q
  promotes s r name c hr := by
    refine ⟨Nat.le_of_eq (s.store.objects_setMember_size r name c).symm,
      fun hs => hs.setMember r name c, fun q hq => ?_⟩
    rw [s.store.object_setMember_of_ne r q name c (by omega)]
    exact .refl _

/-- The members of the first `N` objects stay bound, and nothing is said of the innermost scope. -/
def Layers.holding (N : Nat) : Layers where
  toHeapOrder := (ProgramOrder.holding N).toHeapOrder
  Inner _ _ := True
  inner_trans _ _ _ := trivial
  level _ _ := trivial
  unnamed _ _ _ _ := trivial
  named _ _ := trivial

/-- Leaving members bound and the scopes steady is a logic of all programs. -/
def holding (N : Nat) : NodeLogic (.declaring True) :=
  (Layers.holding N).logic
    (fun _ name => Layered.of_framed (outlasting.declareGlobal name) (.update fun s =>
      ⟨(Layers.holding N).shared (s.sameShared_mapTop _), trivial⟩))
    fun obj _ hr h => Layered.fillObject (ProgramOrder.holding N).promotes h obj hr

/-! ## The scope of members -/

/-- The scope that methods of an object are run in, where the given cell stands for `this`. -/
def Scope.ofMembers (members : Bindings Cell) (this : Cell) : Scope :=
  members.entries.foldl (fun s (name, c) => s.add name c) (Scope.empty.add "this" this)

theorem Scope.ofMembers_find? {members : Bindings Cell} (h : members.names.Nodup) (this : Cell) :
    members.Extends (ofMembers members this).items := by
  have later (name : String) (c : Cell) (es : List (String × Cell))
      (fresh : name ∉ es.map (·.1)) (a : Scope) (ha : a.items.find? name = some c) :
      (es.foldl (fun s (n, c) => s.add n c) a).items.find? name = some c := by
    induction es generalizing a with
    | nil => exact ha
    | cons e es ih =>
      simp only [List.map_cons, List.mem_cons, not_or] at fresh
      refine ih fresh.2 _ ?_
      exact (Bindings.find?_insert _ _ _ _).trans ((if_neg (Ne.symm fresh.1)).trans ha)
  have added (name : String) (c : Cell) (es : List (String × Cell)) (hes : (es.map (·.1)).Nodup)
      (he : (name, c) ∈ es) (a : Scope) :
      (es.foldl (fun s (n, c) => s.add n c) a).items.find? name = some c := by
    induction es generalizing a with
    | nil => cases he
    | cons e es ih =>
      simp only [List.map_cons, List.nodup_cons] at hes
      rcases List.mem_cons.1 he with rfl | he
      · refine later name c es hes.1 _ ?_
        exact (Bindings.find?_insert _ _ _ _).trans (if_pos rfl)
      · exact ih hes.2 he _
  exact fun name c hc => added name c members.entries h (Bindings.mem_of_find? hc) _

theorem Exec.memberScope_eq (r : ObjectRef) (s : State) :
    memberScope r s =
      .ok (Scope.ofMembers (s.store.object r).members (s.store.alloc (.object r)).1)
        { s with store := (s.store.alloc (.object r)).2 } := rfl

end CellScript
