import CellScript.Proofs.Balance
import CellScript.Proofs.Detached.Tidy

/-!
# Single steps keep places tidy

Whatever is stored is detached first: assigning copies colors, vectors and lists, and so do list
literals and `append`. Every new name, member and element is a new cell. So every step keeps tidy
states tidy, completed or failed.

* `Exec.Orderly X P x s Q`: begun in `s`, the step completes as `Q` says or fails in a tidy state,
  and the members of objects only become more;
* `Exec.detached_orderly`: what assigning stores is shared with nothing;
* `Exec.OnTheWay`: a cell is new and does not have its place yet. There is one lemma for each place,
  which it is given at once.
-/

namespace CellScript

/-! ## Members only become more -/

/-- Every member of an object stays one. -/
def Store.Grows (s t : Store) : Prop :=
  ∀ r name, (s.object r).members.contains name = true → (t.object r).members.contains name = true

namespace Store.Grows

theorem refl (s : Store) : s.Grows s := fun _ _ => id

theorem trans {s t u : Store} (h : s.Grows t) (h' : t.Grows u) : s.Grows u :=
  fun r name hm => h' r name (h r name hm)

theorem of_objects {s t : Store} (h : t.objects = s.objects) : s.Grows t := by
  intro r name hm
  unfold Store.object at hm ⊢
  rw [h]
  exact hm

theorem allocObject (s : Store) (typeName : String) : s.Grows (s.allocObject typeName).2 := by
  intro r name hm
  unfold Store.object Store.allocObject at *
  rw [Array.getElem?_push]
  split
  · next hr => simp [hr, Bindings.contains, Bindings.find?, Bindings.empty, Bindings.lookup] at hm
  · exact hm

theorem setMember (s : Store) (r : ObjectRef) (name : String) (c : Cell) :
    s.Grows (s.setMember r name c) := by
  intro r' other hm
  unfold Store.object Store.setMember at *
  rw [Array.getElem?_modify]
  split
  · cases ho : s.objects[r'.index]? with
    | none => simp [ho, Bindings.contains, Bindings.find?, Bindings.empty, Bindings.lookup] at hm
    | some o =>
      simp only [ho, Option.getD_some, Bindings.contains, Option.map_some, Bindings.find?_insert]
        at hm ⊢
      split
      · rfl
      · exact hm
  · exact hm

end Store.Grows

namespace Exec

variable {α β : Type} {X : String → Bool} {P : Cell → Prop}

/-- Begun in `s`, the step completes as `Q` says or fails in a tidy state, and the members of
objects only become more. -/
def Orderly (X : String → Bool) (P : Cell → Prop) (x : Exec α) (s : State)
    (Q : α → State → Prop) : Prop :=
  x.Ends s (fun a t => Q a t ∧ s.store.Grows t.store) fun _ t => t.Tidy X P ∧ s.store.Grows t.store

namespace Orderly

variable {x : Exec α} {s : State} {Q R : α → State → Prop}

theorem mono (h : Orderly X P x s Q) (hQ : ∀ a t, Q a t → R a t) : Orderly X P x s R :=
  Ends.mono h (fun a t ht => ⟨hQ a t ht.1, ht.2⟩) fun _ _ h => h

theorem bind {f : α → Exec β} {R : β → State → Prop} (h : Orderly X P x s Q)
    (hf : ∀ a t, Q a t → Orderly X P (f a) t R) : Orderly X P (x >>= f) s R := by
  refine Ends.bind h fun a t ⟨ht, hgrows⟩ => ?_
  exact Ends.mono (hf a t ht) (fun b u hu => ⟨hu.1, hgrows.trans hu.2⟩)
    fun f u hu => ⟨hu.1, hgrows.trans hu.2⟩

theorem pure {a : α} (h : Q a s) : Orderly X P (pure a) s Q := ⟨h, .refl _⟩

theorem throw (f : Failure) (h : s.Tidy X P) : Orderly X P (throw f : Exec α) s Q := ⟨h, .refl _⟩

/-- Fewer pending cells. -/
theorem weaken {R : Cell → Prop} (h : Orderly X R x s Q) (hR : ∀ c, P c → R c) :
    Orderly X P x s Q :=
  Ends.mono h (fun _ _ h => h) fun _ _ h => ⟨h.1.mono hR, h.2⟩

theorem growing (h : Orderly X P x s Q) :
    Orderly X P x s fun a t => Q a t ∧ s.store.Grows t.store :=
  Ends.mono h (fun _ _ ⟨hq, hgrows⟩ => ⟨⟨hq, hgrows⟩, hgrows⟩) fun _ _ h => h

/-- What else is known of the outcome. -/
theorem restoring {l : Flags} {S : α → Prop} (h : Orderly X P x s Q) (hr : Restores l S x)
    (hs : s.Sound) :
    Orderly X P x s fun a t => Q a t ∧ S a ∧ t.Sound ∧ s.Balanced t :=
  (Ends.and h (hr s hs)).mono
    (fun _ _ ⟨⟨hq, hgrows⟩, ha, ht, hb, _⟩ => ⟨⟨hq, ha, ht, hb⟩, hgrows⟩) fun _ _ h => h.1

theorem mapFailure (g : Failure → Failure) (h : Orderly X P x s Q) :
    Orderly X P (mapFailure g x) s Q :=
  Ends.mapFailure h

/-- Reading something of the state. -/
theorem read {f : State → α} (h : Q (f s) s) : Orderly X P (do return f (← get)) s Q := ⟨h, .refl _⟩

theorem ofNumber {e : Except NumberFault α} (hs : s.Tidy X P) (h : ∀ a, Q a s) :
    Orderly X P (ofNumber e) s Q := by
  cases e with
  | ok a => exact pure (h a)
  | error f => exact throw _ hs

end Orderly

/-! ## Values are detached -/

/-- A change of the storage beside cells, objects and elements. -/
theorem tidy_beside {s : State} {store : Store} (h : s.Tidy X P)
    (hcells : store.cells = s.store.cells) (hobjects : store.objects = s.store.objects)
    (hlists : ∀ c, store.IsElement c → s.store.IsElement c)
    (hhas : ∀ b, s.store.Has b → store.Has b) : State.Tidy X P { s with store } :=
  h.same rfl rfl hobjects hlists (h.separate.beside hcells hhas)

/-- What is made new in the storage may be referred to. -/
theorem unshared_new {s : State} {store : Store} {v : Value} {b : Backing} (h : s.Tidy X P)
    (hcells : store.cells = s.store.cells) (hobjects : store.objects = s.store.objects)
    (hlists : ∀ c, store.IsElement c → s.store.IsElement c) (hb : v.backing? = some b)
    (hv : v.isComponent = false) (hold : ¬ s.store.Has b) (hnew : store.Has b) :
    store.Unshared (State.Tracked X P { s with store }) v := by
  refine (h.separate.unshared_new hcells hb hv hold hnew).mono fun c hc => ?_
  refine State.tracked_mono (s := s) (t := { s with store }) (fun p => ?_) rfl hlists c hc
  cases p with
  | global i name => rfl
  | member r name => simp only [State.place?, Store.object, hobjects]

/-- The result is shared with nothing, and may be stored. -/
def Fresh (X : String → Bool) (P : Cell → Prop) (v : Value) (t : State) : Prop :=
  t.Tidy X P ∧ t.store.Unshared (t.Tracked X P) v

theorem Fresh.plain {s : State} {v : Value} (h : s.Tidy X P) (hv : v.isComponent = false)
    (hb : v.backing? = none) : Fresh X P v s :=
  ⟨h, Store.unshared_plain hv hb⟩

theorem allocColor_fresh {s : State} (h : s.Tidy X P) (c : Color Number) :
    Orderly X P (allocate (·.allocColor c)) s fun r => Fresh X P (.color r) := by
  refine ⟨⟨tidy_beside h rfl rfl (fun _ => id) fun b hb => ?_,
    unshared_new h rfl rfl (fun _ => id) rfl rfl ?_ ?_⟩, .of_objects rfl⟩
  · cases b with
    | color q => exact Nat.lt_of_lt_of_le hb (by simp)
    | vector q => exact hb
    | list q => exact hb
  · simp [Store.Has]
  · simp [Store.Has]

theorem allocVector_fresh {s : State} (h : s.Tidy X P) (v : Vector2 Number) :
    Orderly X P (allocate (·.allocVector v)) s fun r => Fresh X P (.vector r) := by
  refine ⟨⟨tidy_beside h rfl rfl (fun _ => id) fun b hb => ?_,
    unshared_new h rfl rfl (fun _ => id) rfl rfl ?_ ?_⟩, .of_objects rfl⟩
  · cases b with
    | color q => exact hb
    | vector q => exact Nat.lt_of_lt_of_le hb (by simp)
    | list q => exact hb
  · simp [Store.Has]
  · simp [Store.Has]

/-- The elements of a new list were pending or elements before. -/
theorem allocList_fresh {s : State} {T : Cell → Prop} (h : s.Tidy X fun d => P d ∨ T d)
    (hT : ∀ d, T d → ¬ P d) (cs : Array Cell) (hcs : ∀ d ∈ cs, s.store.IsElement d ∨ T d) :
    Orderly X P (allocate (·.allocList cs)) s fun r => Fresh X P (.list r) := by
  let t : State := { s with store := (s.store.allocList cs).2 }
  have elements (d : Cell) (hd : t.store.IsElement d) : s.store.IsElement d ∨ T d :=
    ((Store.isElement_allocList _ _ d).1 hd).elim Or.inl (hcs d)
  have has (b : Backing) (hb : s.store.Has b) : t.store.Has b := by
    cases b with
    | color q => exact hb
    | vector q => exact hb
    | list q => exact Nat.lt_of_lt_of_le hb (by simp [t, Store.allocList])
  have tidy : t.Tidy X P := h.bind_elements hT rfl rfl rfl rfl has elements
  have unshared : t.store.Unshared (s.Tracked X fun d => P d ∨ T d) (.list ⟨s.store.lists.size⟩) :=
    h.separate.unshared_new rfl rfl rfl (by simp [Store.Has])
      (by simp [Store.Has, t, Store.allocList])
  refine ⟨⟨tidy, unshared.mono fun d hd => ?_⟩, .of_objects rfl⟩
  rcases hd with (hd | hd | hd) | hd
  · exact Or.inl (Or.inl hd)
  · exact Or.inl (Or.inr (Or.inl hd))
  · exact Or.inl (Or.inr (Or.inr (Or.inl hd)))
  · exact (elements d hd).elim Or.inr fun hd => Or.inl (Or.inr (Or.inr (Or.inr hd)))

/-- What assigning a value stores is shared with nothing. -/
theorem detached_orderly {s : State} (h : s.Tidy X P) (v : Value) :
    Orderly X P (detached v) s (Fresh X P) := by
  cases v with
  | component k =>
    refine Orderly.bind (Q := fun _ t => t.Tidy X P) (.read h) fun store t ht => ?_
    exact Orderly.bind (Orderly.ofNumber ht fun _ => ht) fun x u hu => .pure (.plain hu rfl rfl)
  | color r => exact (allocColor_fresh h (s.store.color r)).bind fun _ _ ht => .pure ht
  | vector r => exact (allocVector_fresh h (s.store.vector r)).bind fun _ _ ht => .pure ht
  | list r =>
    have same : s.Tidy X fun d => P d ∨ False := h.mono fun d hd => hd.resolve_right id
    exact (allocList_fresh same (fun _ => False.elim) (s.store.list r)
      fun d hd => Or.inl ⟨r, hd⟩).bind fun _ _ ht => .pure ht
  | undefined => exact .pure (.plain h rfl rfl)
  | boolean b => exact .pure (.plain h rfl rfl)
  | integer n => exact .pure (.plain h rfl rfl)
  | real x => exact .pure (.plain h rfl rfl)
  | string t => exact .pure (.plain h rfl rfl)
  | function f owner => exact .pure (.plain h rfl rfl)
  | object r => exact .pure (.plain h rfl rfl)
  | objectType t => exact .pure (.plain h rfl rfl)

/-! ## New cells -/

/-- The cell is new, and on the way to where it belongs. -/
def OnTheWay (X : String → Bool) (P : Cell → Prop) (c : Cell) (t : State) : Prop :=
  t.Tidy X (fun d => P d ∨ d = c) ∧ ¬ P c

theorem OnTheWay.tidy {c : Cell} {t : State} (h : OnTheWay X P c t) : t.Tidy X P :=
  h.1.mono fun _ => Or.inl

/-- The cells are new, and on the way to where they belong. -/
def AllOnTheWay (X : String → Bool) (P : Cell → Prop) (cs : List Cell) (t : State) : Prop :=
  t.Tidy X (fun d => P d ∨ d ∈ cs) ∧ ∀ d ∈ cs, ¬ P d

theorem AllOnTheWay.nil {t : State} (h : t.Tidy X P) : AllOnTheWay X P [] t :=
  ⟨h.mono fun _ hd => hd.resolve_right List.not_mem_nil, by simp⟩

/-- One cell is on the way before the others are. -/
theorem AllOnTheWay.cons {c : Cell} {cs : List Cell} {t : State} (hc : ¬ P c)
    (h : AllOnTheWay X (fun d => P d ∨ d = c) cs t) : AllOnTheWay X P (c :: cs) t := by
  refine ⟨h.1.mono fun d hd => ?_, fun d hd hP => ?_⟩
  · rcases hd with hd | hd
    · exact Or.inl (Or.inl hd)
    · exact (List.mem_cons.1 hd).elim (fun hd => Or.inl (Or.inr hd)) Or.inr
  · rcases List.mem_cons.1 hd with rfl | hd
    · exact hc hP
    · exact h.2 d hd (Or.inl hP)

theorem newCell_orderly {s : State} (h : s.Tidy X P) (v : Value) :
    Orderly X P (newCell v) s fun _ t => t.Tidy X P :=
  ⟨h.alloc v, .of_objects rfl⟩

theorem newCell_fresh {s : State} {v : Value} (h : Fresh X P v s) :
    Orderly X P (newCell v) s (OnTheWay X P) :=
  ⟨⟨h.1.alloc_pending h.2, fun hP => h.1.not_tracked_alloc v (Or.inl (Or.inr (Or.inr hP)))⟩,
    .of_objects rfl⟩

theorem value_orderly {s : State} (h : s.Tidy X P) (c : Cell) :
    Orderly X P (value c) s fun _ t => t.Tidy X P := .read h

theorem storage_orderly {s : State} (h : s.Tidy X P) :
    Orderly X P storage s fun store t => t.Tidy X P ∧ t.store = store := .read ⟨h, rfl⟩

/-- A copy of a cell is shared with nothing. -/
theorem copyCell_orderly {s : State} (h : s.Tidy X P) (c : Cell) :
    Orderly X P (copyCell c) s (OnTheWay X P) :=
  (value_orderly h c).bind fun v _ ht => (detached_orderly ht v).bind fun _ _ hu =>
    newCell_fresh hu

theorem numberOf_orderly {s : State} (h : s.Tidy X P) (v : Value) (line : Option Nat) :
    Orderly X P (numberOf v line) s fun _ t => t.Tidy X P := by
  unfold numberOf
  split
  · exact (Orderly.ofNumber h fun _ => h).bind fun _ _ ht => .pure ht
  · exact .pure h
  · exact (storage_orderly h).bind fun _ _ ht => .ofNumber ht.1 fun _ => ht.1
  · exact .throw _ h

theorem has_setComponent (s : Store) (k : Component) (x : Number) (b : Backing) (h : s.Has b) :
    (s.setComponent k x).Has b := by
  cases k <;> cases b <;>
    simpa [Store.setComponent, Store.setColor, Store.setVector, Store.Has] using h

/-- Assigning stores what is shared with nothing, or writes through to a component. -/
theorem store_orderly {s : State} (h : s.Tidy X P) (c : Cell) (v : Value) (line : Option Nat) :
    Orderly X P (store c v line) s fun _ t => t.Tidy X P := by
  refine (value_orderly h c).bind fun w t ht => ?_
  split
  · next k =>
    refine (numberOf_orderly ht v line).bind fun x u hu => ?_
    refine ⟨tidy_beside hu ?_ ?_ (fun d hd => ?_) (has_setComponent _ k x), .of_objects ?_⟩
    · cases k <;> rfl
    · cases k <;> rfl
    · exact (Store.isElement_congr (by cases k <;> rfl) d).1 hd
    · cases k <;> rfl
  · refine (detached_orderly ht v).bind fun w u hu => ?_
    refine ⟨hu.1.same rfl rfl rfl (fun d hd => (Store.isElement_congr rfl d).1 hd) ?_,
      .of_objects rfl⟩
    exact hu.1.separate.set hu.2 c

/-! ## Elements -/

theorem append_orderly {s : State} (h : s.Tidy X P) (r : ListRef) (c : Cell) :
    Orderly X P (append r c) s fun _ t => t.Tidy X P := by
  refine (copyCell_orderly h c).bind fun d t ht => ?_
  refine ⟨ht.1.bind_elements (T := (· = d)) (fun e he => he ▸ ht.2) rfl rfl rfl rfl
    (fun b hb => ?_) fun e => Store.isElement_pushList, .of_objects rfl⟩
  cases b <;> simpa [Store.Has, Store.pushList] using hb

/-! ## Members -/

theorem setMember_orderly {s : State} {c : Cell} (h : OnTheWay X P c s) (r : ObjectRef)
    (name : String) :
    Orderly X P (updateStore (·.setMember r name c)) s fun _ t => t.Tidy X P :=
  ⟨h.1.bind_member h.2 r name, .setMember _ _ _ _⟩

theorem bindMethod_orderly {s : State} (h : s.Tidy X P) (r : ObjectRef) (name : String)
    (f : Callable) : Orderly X P (bindMethod r name f) s fun _ t => t.Tidy X P :=
  (newCell_fresh (.plain h rfl rfl)).bind fun _ _ ht => setMember_orderly ht r name

theorem bindMethods_orderly {s : State} (h : s.Tidy X P) (r : ObjectRef)
    (ms : List (String × Callable)) :
    Orderly X P (bindMethods r ms) s fun _ t => t.Tidy X P := by
  induction ms generalizing s with
  | nil => exact .pure h
  | cons m ms ih => exact (bindMethod_orderly h r m.1 m.2).bind fun _ _ ht => ih ht

theorem makeObject_orderly {s : State} (h : s.Tidy X P) (t : ObjectType) :
    Orderly X P (makeObject t) s fun _ u => u.Tidy X P := by
  have made : Orderly X P (allocate (·.allocObject t.name)) s fun _ u => u.Tidy X P := by
    refine ⟨h.shrink (fun p c hp => ?_) (List.Sublist.refl _) (fun _ => id)
      (fun c hc => (Store.isElement_congr rfl c).1 hc) (h.separate.beside rfl fun b hb => ?_),
      .allocObject _ _⟩
    · cases p with
      | global i name => exact hp
      | member r name =>
        simp only [State.place?, Store.object, Array.getElem?_push] at hp
        split at hp
        · simp [Bindings.find?, Bindings.empty, Bindings.lookup] at hp
        · exact hp
    · cases b <;> exact hb
  exact made.bind fun r u hu => (bindMethods_orderly hu r _).bind fun _ _ hv => .pure hv

theorem newMember_orderly {s : State} (h : s.Tidy X P) (owner : Cell) (name : String)
    (line : Option Nat) : Orderly X P (newMember owner name line) s fun _ t => t.Tidy X P := by
  refine (newCell_fresh (.plain h rfl rfl)).bind fun c t ht => ?_
  refine Orderly.bind (Q := fun _ t => t.Tidy X P) ?_ fun _ _ hu => .pure hu
  refine Orderly.bind (Q := fun _ u => OnTheWay X P c u) (.read ht) fun v u hu => ?_
  split
  · exact setMember_orderly hu _ name
  · exact .throw _ hu.tidy

/-! ## Names -/

/-- A step that changes only names of types, names declared as global, and cells without a name. -/
theorem tidy_scopes {s t : State} (h : s.Tidy X P) (hstore : t.store = s.store)
    (hg : ∀ i, (State.layer? t.globals i).map (·.items) = (State.layer? s.globals i).map (·.items))
    (ho : t.owned X = s.owned X) : t.Tidy X P := by
  refine h.shrink (fun p c hp => ?_) (State.owned_sublist ho) (fun _ => id)
    (fun c hc => hstore ▸ hc) (hstore ▸ h.separate)
  cases p with
  | member r name =>
    rw [State.place?, hstore] at hp
    exact hp
  | global i name =>
    have hi := hg i
    simp only [State.place?] at hp ⊢
    cases ht : State.layer? t.globals i with
    | none => simp [ht] at hp
    | some a =>
      cases hs : State.layer? s.globals i with
      | none => simp [ht, hs] at hi
      | some b =>
        simp only [ht, hs, Option.map_some, Option.some.injEq] at hi
        simpa only [ht, Option.bind_some, hi] using hp

theorem addGlobal_orderly {s : State} {c : Cell} (h : OnTheWay X P c s) (name : String)
    (line : Option Nat) : Orderly X P (addGlobal name c line) s fun _ t => t.Tidy X P := by
  refine Ends.addGlobal (fun top below hg _ => ?_) fun _ _ => ?_
  · exact ⟨h.1.bind_global h.2 hg name, .refl _⟩
  · exact ⟨h.tidy, .refl _⟩

theorem addLocal_orderly {s : State} {c : Cell} (h : OnTheWay X P c s) (name : String) :
    Orderly X P (addLocal name c) s fun _ t => t.Tidy X P := by
  refine Ends.addLocal (fun _ => ?_) fun _ => ⟨h.tidy, .refl _⟩
  exact ⟨h.1.bind_local h.2 name, .of_objects (congrArg Store.objects (s.store_mapTop _))⟩

theorem newName_orderly {s : State} (h : s.Tidy X P) (name : String) (line : Option Nat) :
    Orderly X P (newName name line) s fun _ t => t.Tidy X P := by
  refine (newCell_fresh (.plain h rfl rfl)).bind fun c t ht => ?_
  refine Orderly.bind (Q := fun _ t => t.Tidy X P) ?_ fun _ _ hu => .pure hu
  refine Ends.addName (fun _ _ => ?_) fun _ => ?_
  · exact addLocal_orderly ht name
  · exact addGlobal_orderly ht name line

theorem declareFunction_orderly {s : State} (h : s.Tidy X P) (f : FunctionDef Stmt) :
    Orderly X P (declareFunction f) s fun _ t => t.Tidy X P := by
  refine Orderly.bind (Q := fun _ t => t.Tidy X P) (.read h) fun c t ht => ?_
  split
  · refine (value_orderly ht _).bind fun v u hu => ?_
    split
    · split
      · exact .pure hu
      · exact .throw _ hu
    · exact .throw _ hu
  · refine (newCell_fresh (.plain ht rfl rfl)).bind fun c u hu => ?_
    unfold Orderly
    rw [ends_get_bind]
    split
    · exact addGlobal_orderly hu f.name _
    · exact addLocal_orderly hu f.name

theorem layer?_items (top a : Scope) (below : List Scope) (h : a.items = top.items) (i : Nat) :
    (State.layer? (a :: below) i).map (·.items) =
      (State.layer? (top :: below) i).map (·.items) := by
  unfold State.layer?
  split
  · simp only [Option.map_some, h]
  · rfl

theorem addType_orderly {s : State} (h : s.Tidy X P) (name : String) (t : ObjectType)
    (line : Option Nat) : Orderly X P (addType name t line) s fun _ u => u.Tidy X P := by
  refine Ends.addType (fun old _ _ => ?_) (fun top below hg _ => ?_) ?_ fun _ => ?_
  · exact ⟨h, .refl _⟩
  · refine ⟨tidy_scopes h rfl (fun i => ?_) rfl, .refl _⟩
    rw [hg]
    exact layer?_items top { top with types := top.types.insert name t } below rfl i
  · exact ⟨h, .refl _⟩
  · exact ⟨h, .refl _⟩

/-- A change of the innermost scope that binds no names. -/
theorem tidy_mapTop {s : State} (h : s.Tidy X P) {f : Scope → Scope}
    (hf : ∀ a, (f a).items = a.items) : (s.mapTop f).Tidy X P := by
  unfold State.mapTop
  split
  · exact h
  · next top below hl =>
    refine tidy_scopes h rfl (fun _ => rfl) ?_
    simp only [State.owned, hl, Scope.owned, hf]

theorem declareGlobal_orderly {s : State} (h : s.Tidy X P) (name : String) :
    Orderly X P (modify (·.declareGlobal name)) s fun _ t => t.Tidy X P := by
  refine ⟨tidy_mapTop h fun a => ?_, .of_objects (congrArg Store.objects (s.store_mapTop _))⟩
  unfold Scope.declareGlobal
  split <;> rfl

theorem addAnonymous_orderly {s : State} (h : s.Tidy X P) (c : Cell) :
    Orderly X P (addAnonymous c) s fun _ t => t.Tidy X P := by
  refine Ends.addAnonymous (fun _ => ?_) (fun top below hg => ?_) fun _ => ⟨h, .refl _⟩
  · exact ⟨tidy_mapTop h fun _ => rfl, .of_objects (congrArg Store.objects (s.store_mapTop _))⟩
  · refine ⟨tidy_scopes h rfl (fun i => ?_) rfl, .refl _⟩
    rw [hg]
    exact layer?_items top (top.addAnonymous c) below rfl i

/-! ## Steps beside storage and scopes -/

/-- The storage, the global scopes and the local scopes stay as they are. -/
def Calm (x : Exec α) : Prop :=
  ∀ s : State, x.Ends s
    (fun _ t => t.globals = s.globals ∧ t.locals = s.locals ∧ t.store = s.store)
    fun _ t => t.globals = s.globals ∧ t.locals = s.locals ∧ t.store = s.store

theorem Calm.orderly {x : Exec α} (hx : Calm x) {s : State} (h : s.Tidy X P) :
    Orderly X P x s fun _ t => t.Tidy X P :=
  (hx s).mono (fun _ _ ⟨hg, hl, hs⟩ => ⟨h.calm hg hl hs, .of_objects (by rw [hs])⟩)
    fun _ _ ⟨hg, hl, hs⟩ => ⟨h.calm hg hl hs, .of_objects (by rw [hs])⟩

theorem calm_update {f : State → State} (hg : ∀ s, (f s).globals = s.globals)
    (hl : ∀ s, (f s).locals = s.locals) (hs : ∀ s, (f s).store = s.store) : Calm (modify f) :=
  fun s => ⟨hg s, hl s, hs s⟩

theorem calm_popReturn : Calm popReturn := fun _ =>
  .popReturn (fun _ _ _ => ⟨rfl, rfl, rfl⟩) fun _ => ⟨rfl, rfl, rfl⟩

theorem calm_setReturn (c : Cell) (line : Option Nat) : Calm (setReturn c line) := fun _ =>
  .setReturn (fun _ _ _ => ⟨rfl, rfl, rfl⟩) fun _ => ⟨rfl, rfl, rfl⟩

end Exec

end CellScript
