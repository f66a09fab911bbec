import CellScript.Proofs.Congruence.Interp
import CellScript.Proofs.Congruence.Free

/-!
# Orders that every run follows

The global scopes and the objects are changed in few ways only: a name that no global scope binds is
bound in the top one, types and cells without a name are added to it, objects are made, an object is
given a member that it does not have, and a realization fills the object that it has made. An order
of states that allows these changes, and any change of what else there is in a state, is followed by
whatever is run, completed or failed.

* `StateOrder`, `Exec.Along`: a step follows an order of states;
* `QuietOrder`, `ObjectOrder`, `HeapOrder`, `ProgramOrder`: orders that allow more and more changes,
  the last of them all that programs make;
* `HeapOrder.cells`, `ProgramOrder.logic`: following such an order is a logic of programs, and
  `ProgramOrder.followed`: the interpreter follows it.
-/

namespace CellScript

/-! ## Orders -/

/-- What all calls share, the global scopes and the objects, does not differ, and cells are kept. -/
structure State.SameShared (s t : State) : Prop where
  globals : t.globals = s.globals
  objects : t.store.objects = s.store.objects
  cells : s.store.cells.size ≤ t.store.cells.size

/-- Nor do the local scopes and the objects being realized differ. -/
structure State.Quiet (s t : State) : Prop extends State.SameShared s t where
  locals : t.locals = s.locals
  instants : t.instants = s.instants

namespace State

variable {s t u : State}

theorem SameShared.of_eq (hg : t.globals = s.globals) (hs : t.store = s.store) : s.SameShared t :=
  ⟨hg, congrArg Store.objects hs, Nat.le_of_eq (congrArg (·.cells.size) hs).symm⟩

theorem SameShared.refl (s : State) : s.SameShared s := .of_eq rfl rfl

theorem Quiet.of_eq (hg : t.globals = s.globals) (hs : t.store = s.store)
    (hl : t.locals = s.locals) (hi : t.instants = s.instants) : s.Quiet t :=
  ⟨.of_eq hg hs, hl, hi⟩

theorem Quiet.refl (s : State) : s.Quiet s := .of_eq rfl rfl rfl rfl

theorem SameShared.trans (h : s.SameShared t) (h' : t.SameShared u) : s.SameShared u :=
  ⟨h'.globals.trans h.globals, h'.objects.trans h.objects, Nat.le_trans h.cells h'.cells⟩

theorem Quiet.trans (h : s.Quiet t) (h' : t.Quiet u) : s.Quiet u :=
  ⟨h.toSameShared.trans h'.toSameShared, h'.locals.trans h.locals, h'.instants.trans h.instants⟩

theorem sameShared_mapTop (s : State) (f : Scope → Scope) : s.SameShared (s.mapTop f) :=
  .of_eq (s.globals_mapTop f) (s.store_mapTop f)

end State

/-- An order of states, and the states in which it is followed. -/
structure StateOrder where
  Le : State → State → Prop
  From : State → Prop
  refl (s : State) : Le s s
  trans {s t u : State} : Le s t → Le t u → Le s u
  keeps {s t : State} : From s → Le s t → From t

/-- An order that does not tell what is written into cells, and what is printed, logged or given as
a result. -/
structure QuietOrder extends StateOrder where
  quiet {s t : State} : s.Quiet t → Le s t

/-- The order that allows nothing else. -/
def QuietOrder.least : QuietOrder where
  Le := State.Quiet
  From _ := True
  refl := .refl
  trans := .trans
  keeps _ _ := trivial
  quiet h := h

/-- An order that allows objects to be made and to be given new cells as members that they do not
have. -/
structure ObjectOrder extends QuietOrder where
  /-- The objects that may be filled. -/
  Made : ObjectRef → Prop
  allocObject (s : State) (typeName : String) :
    Le s { s with store := (s.store.allocObject typeName).2 }
  made {s : State} : From s → Made ⟨s.store.objects.size⟩
  setMember {s : State} {r : ObjectRef} {name : String} {c : Cell} :
    Made r ∨ (s.store.object r).members.find? name = none → c.index < s.store.cells.size →
    Le s { s with store := s.store.setMember r name c }

/-- An order that allows the changes which programs make to objects in this way and to the global
scopes, and that does not look at the local scopes. -/
structure HeapOrder extends ObjectOrder where
  shared {s t : State} : s.SameShared t → Le s t
  quiet h := shared h.toSameShared
  anonymous {s : State} {top : Scope} {below : List Scope} (c : Cell) : s.globals = top :: below →
    Le s { s with globals := top.addAnonymous c :: below }
  addType {s : State} {top : Scope} {below : List Scope} {name : String} (t : ObjectType) :
    s.globals = top :: below → s.findType? name = none →
    Le s { s with globals := { top with types := top.types.insert name t } :: below }
  addGlobal {s : State} {top : Scope} {below : List Scope} {name : String} (c : Cell) :
    s.globals = top :: below → s.findGlobal? name = none →
    Le s { s with globals := top.add name c :: below }

/-- Objects that may be filled may be given members by any names and cells. -/
def ObjectOrder.Promotes (R : ObjectOrder) : Prop :=
  ∀ (s : State) {r : ObjectRef} (name : String) (c : Cell), R.Made r →
    R.Le s { s with store := s.store.setMember r name c }

/-- An order that allows all changes which programs make. What is bound in a realization becomes a
member of its object. -/
structure ProgramOrder extends HeapOrder where
  promotes : toObjectOrder.Promotes

instance : Coe QuietOrder StateOrder := ⟨QuietOrder.toStateOrder⟩

instance : Coe ObjectOrder StateOrder := ⟨fun R => R.toStateOrder⟩

instance : Coe HeapOrder StateOrder := ⟨fun R => R.toStateOrder⟩

instance : Coe ProgramOrder StateOrder := ⟨fun R => R.toStateOrder⟩

/-! ## Steps -/

/-- A new undefined cell is not told from one that is not there. -/
theorem Store.get_alloc_undefined (s : Store) (c : Cell) :
    (s.alloc .undefined).2.get c = s.get c := by
  rcases Nat.lt_trichotomy c.index s.cells.size with hlt | heq | hgt
  · exact s.get_alloc_of_lt .undefined c hlt
  · simp [get, alloc, heq]
  · have outside : (s.cells.push .undefined)[c.index]? = none :=
      Array.getElem?_eq_none (by rw [Array.size_push]; omega)
    simp [get, alloc, outside, Array.getElem?_eq_none (Nat.le_of_lt hgt)]

namespace Store

variable (s : Store) (r q : ObjectRef) (name : String) (c : Cell)

theorem objects_setMember_size : (s.setMember r name c).objects.size = s.objects.size := by
  simp [setMember]

/-- Only one object is given a member. -/
theorem object_setMember_of_ne (h : q.index ≠ r.index) :
    (s.setMember r name c).object q = s.object q := by
  simp [object, setMember, Array.getElem?_modify, Ne.symm h]

theorem members_setMember (h : r.index < s.objects.size) :
    ((s.setMember r name c).object r).members = (s.object r).members.insert name c := by
  simp [object, setMember, Array.getElem_modify, h]

/-- Where there is no such object, nothing is changed. -/
theorem object_setMember_of_le (h : s.objects.size ≤ r.index) (q : ObjectRef) :
    (s.setMember r name c).object q = s.object q := by
  by_cases hq : q.index = r.index
  · simp [object, setMember, Array.getElem?_modify, hq, Array.getElem?_eq_none h]
  · exact s.object_setMember_of_ne r q name c hq

/-- What a name stands for among the members of an object that has been given one. -/
theorem find?_setMember (other : String) :
    ((s.setMember r name c).object r).members.find? other =
      if name = other ∧ r.index < s.objects.size then some c
      else (s.object r).members.find? other := by
  rcases Nat.lt_or_ge r.index s.objects.size with inside | outside
  · simp [s.members_setMember r name c inside, Bindings.find?_insert, inside]
  · rw [s.object_setMember_of_le r name c outside r, if_neg fun h => by omega]

theorem object_allocObject (typeName : String) :
    ((s.allocObject typeName).2.object q).members = (s.object q).members ∨
      ((s.allocObject typeName).2.object q).members = .empty := by
  unfold object allocObject
  rw [Array.getElem?_push]
  split
  · exact .inr rfl
  · exact .inl rfl

end Store

namespace Exec

variable {α β : Type}

theorem ends_true (x : Exec α) (s : State) : x.Ends s (fun _ _ => True) fun _ _ => True :=
  ends_iff.2 ⟨fun _ _ _ => trivial, fun _ _ _ => trivial⟩

/-- What the step gives is a cell of the storage. -/
def Stores (x : Exec Cell) : Prop :=
  ∀ s, x.Ends s (fun c t => c.index < t.store.cells.size) fun _ _ => True

theorem newCell_stores (v : Value) : (newCell v).Stores := fun s => by
  change s.store.cells.size < (s.store.cells.push v).size
  simp

theorem copyCell_stores (c : Cell) : (copyCell c).Stores := fun s =>
  Ends.bind (ends_true (value c) s) fun v t _ =>
    Ends.bind (ends_true (detached v) t) fun w u _ => newCell_stores w u

theorem copyInstant_stores : copyInstant.Stores := by
  intro s
  unfold copyInstant
  rw [ends_get_bind]
  split
  · exact copyCell_stores _ s
  · exact newCell_stores _ s

/-- The step follows the order, and what it gives satisfies `Q`. -/
def Along (R : StateOrder) (Q : α → Prop) (x : Exec α) : Prop :=
  ∀ s, R.From s → x.Ends s (fun a t => Q a ∧ R.Le s t) fun _ t => R.Le s t

namespace Along

section

variable {R : StateOrder} {P Q : α → Prop} {S : β → Prop} {x : Exec α}

/-! ## Single steps -/

theorem pure {a : α} (h : Q a) : Along R Q (pure a) := fun s _ => ⟨h, R.refl s⟩

theorem throw (f : Failure) : Along R Q (throw f : Exec α) := fun s _ => R.refl s

theorem read {f : State → α} (h : ∀ s, Q (f s)) : Along R Q (do return f (← get)) :=
  fun s _ => ⟨h s, R.refl s⟩

theorem update {f : State → State} (h : ∀ s, R.Le s (f s)) :
    Along R (fun _ => True) (modify f) :=
  fun s _ => ⟨trivial, h s⟩

/-! ## Steps put together -/

theorem bind {f : α → Exec β} (hx : Along R P x) (hf : ∀ a, P a → Along R S (f a)) :
    Along R S (x >>= f) := fun s hs =>
  Ends.bind (hx s hs) fun a t ⟨ha, ht⟩ =>
    (hf a ha t (R.keeps hs ht)).mono (fun _ _ ⟨hb, hu⟩ => ⟨hb, R.trans ht hu⟩)
      fun _ _ hu => R.trans ht hu

theorem mono (hQ : ∀ a, P a → Q a) (h : Along R P x) : Along R Q x := fun s hs =>
  (h s hs).mono (fun a _ ⟨ha, ht⟩ => ⟨hQ a ha, ht⟩) fun _ _ ht => ht

theorem after {f : α → Exec β} (hx : Along R (fun _ => True) x) (hf : ∀ a, Along R S (f a)) :
    Along R S (x >>= f) :=
  hx.bind fun a _ => hf a

theorem mapFailure (g : Failure → Failure) (h : Along R Q x) : Along R Q (mapFailure g x) :=
  fun s hs => Ends.mapFailure (h s hs)

theorem ensuring {finish : Exec Unit} (h : Along R Q x) (hf : Along R (fun _ => True) finish) :
    Along R Q (ensuring x finish) := by
  intro s hs
  have finished {t : State} (ht : R.Le s t) :
      finish.Ends t (fun _ u => R.Le s u) fun _ u => R.Le s u :=
    (hf t (R.keeps hs ht)).mono (fun _ _ hu => R.trans ht hu.2) fun _ _ hu => R.trans ht hu
  exact Ends.ensuring ((h s hs).mono
    (fun _ _ ⟨ha, ht⟩ => (finished ht).mono (fun _ _ hu => ⟨ha, hu⟩) fun _ _ hu => hu)
    fun _ _ ht => finished ht)

theorem runAll {f : Stmt → Exec Unit} (h : ∀ st, Along R (fun _ => True) (f st)) (ss : List Stmt) :
    Along R (fun _ => True) (runAll f ss) := by
  induction ss with
  | nil => exact pure trivial
  | cons st ss ih =>
    refine (h st).after fun _ => after (x := get) (read fun _ => trivial) fun s => ?_
    split
    · exact pure trivial
    · exact ih

end

/-! ## Quiet steps -/

section

variable {R : QuietOrder} {Q : α → Prop} {x : Exec α}

theorem of_quiet (h : ∀ s, x.Ends s (fun a t => Q a ∧ s.Quiet t) fun _ t => s.Quiet t) :
    Along R Q x :=
  fun s _ => (h s).mono (fun _ _ ⟨ha, ht⟩ => ⟨ha, R.quiet ht⟩) fun _ _ ht => R.quiet ht

theorem allocate {f : Store → α × Store} (ho : ∀ s : Store, (f s).2.objects = s.objects)
    (hc : ∀ s : Store, s.cells.size ≤ (f s).2.cells.size) :
    Along R (fun _ => True) (allocate f) :=
  of_quiet fun s => ⟨trivial, ⟨rfl, ho s.store, hc s.store⟩, rfl, rfl⟩

theorem updateStore {f : Store → Store} (ho : ∀ s : Store, (f s).objects = s.objects)
    (hc : ∀ s : Store, s.cells.size ≤ (f s).cells.size) :
    Along R (fun _ => True) (updateStore f) :=
  allocate (f := fun s => ((), f s)) ho hc

/-! ### Cells -/

theorem ofNumber (n : Except NumberFault α) : Along R (fun _ => True) (ofNumber n) := by
  cases n with
  | ok a => exact pure trivial
  | error f => exact throw _

theorem newCell (v : Value) : Along R (fun _ => True) (newCell v) :=
  allocate (fun _ => rfl) fun s => by simp [Store.alloc]

theorem numberOf (v : Value) (line : Option Nat) : Along R (fun _ => True) (numberOf v line) := by
  unfold Exec.numberOf
  split
  · exact (ofNumber _).after fun _ => pure trivial
  · exact pure trivial
  · exact after (read fun _ => trivial) fun _ => ofNumber _
  · exact throw _

theorem detached (v : Value) : Along R (fun _ => True) (detached v) := by
  unfold Exec.detached
  split
  · exact after (read fun _ => trivial) fun _ => (ofNumber _).after fun _ => pure trivial
  · exact after (allocate (fun _ => rfl) fun _ => Nat.le_refl _) fun _ => pure trivial
  · exact after (allocate (fun _ => rfl) fun _ => Nat.le_refl _) fun _ => pure trivial
  · exact after (allocate (fun _ => rfl) fun _ => Nat.le_refl _) fun _ => pure trivial
  · exact pure trivial

theorem copyCell (c : Cell) : Along R (fun _ => True) (copyCell c) :=
  after (read fun _ => trivial) fun v => (detached v).after fun w => newCell w

theorem store (c : Cell) (v : Value) (line : Option Nat) :
    Along R (fun _ => True) (store c v line) := by
  refine after (x := Exec.value c) (read fun _ => trivial) fun w => ?_
  split
  · next k =>
    refine (numberOf v line).after fun x => updateStore (fun s => ?_) fun s => ?_
    · cases k <;> rfl
    · cases k <;> exact Nat.le_refl _
  · exact (detached v).after fun u => updateStore (fun _ => rfl) fun s => by simp [Store.set]

theorem append (r : ListRef) (c : Cell) : Along R (fun _ => True) (append r c) :=
  (copyCell c).after fun _ => updateStore (fun _ => rfl) fun _ => Nat.le_refl _

theorem evaluateList {f : Expr → Exec Cell} (es : List Expr)
    (h : ∀ e, Along R (fun _ => True) (f e)) : Along R (fun _ => True) (evaluateList f es) := by
  have elements : Along R (fun _ => True) (evaluateElements f es) := by
    induction es with
    | nil => exact pure trivial
    | cons e es ih =>
      exact (h e).after fun _ => (copyCell _).after fun _ => ih.after fun _ => pure trivial
  exact elements.after fun _ =>
    after (allocate (fun _ => rfl) fun _ => Nat.le_refl _) fun _ => newCell _

/-! ### Results and loops -/

theorem setReturn (c : Cell) (line : Option Nat) : Along R (fun _ => True) (setReturn c line) :=
  of_quiet fun s => .setReturn (fun _ _ _ => ⟨trivial, .of_eq rfl rfl rfl rfl⟩) fun _ => .refl s

theorem popReturn : Along R (fun _ => True) popReturn :=
  of_quiet fun s => .popReturn (fun _ _ _ => ⟨trivial, .of_eq rfl rfl rfl rfl⟩) fun _ => .refl s

theorem takeResult {x : Exec Unit} (h : Along R (fun _ => True) x) :
    Along R (fun _ => True) (takeResult x) := by
  have same {f : State → State} (hf : ∀ s : State, s.Quiet (f s)) :
      Along R (fun _ => True) (modify f) := update fun s => R.quiet (hf s)
  exact (newCell _).after fun c =>
    after (x := pushReturn c) (same fun _ => .of_eq rfl rfl rfl rfl) fun _ =>
      h.after fun _ => after (same fun _ => .of_eq rfl rfl rfl rfl) fun _ => popReturn

theorem loopParts : LoopParts (fun x _ => Along R (fun _ => True) x)
    fun x _ => Along R (fun _ => True) x where
  pure _ := pure trivial
  bind hx hf := hx.after hf
  outOfFuel := throw _
  clear _ := update fun _ => R.quiet (.of_eq rfl rfl rfl rfl)
  loopExit := read fun _ => trivial
  whole h := after (update fun _ => R.quiet (.of_eq rfl rfl rfl rfl)) fun _ =>
    h.after fun _ => update fun _ => R.quiet (.of_eq rfl rfl rfl rfl)

/-! ### Scopes of calls -/

/-- The scope of an object's members declares no names as global. -/
theorem memberScope (r : ObjectRef) :
    Along R (fun scope => scope.globalNames = []) (memberScope r) :=
  (newCell _).after fun _ => after (x := storage) (read fun _ => trivial)
    fun _ => pure (StoreLogic.globalNames_addAll _ _)

theorem ownerScope (owner : Option ObjectRef) :
    Along R (fun scope => ∀ m ∈ scope, m.globalNames = []) (ownerScope owner) := by
  cases owner with
  | none => exact pure (by simp)
  | some r =>
    refine (memberScope r).bind fun scope hs => pure ?_
    rintro m ⟨rfl⟩
    exact hs

/-- Nor does that of the arguments of a call. -/
theorem argumentScope (parameters : List String) (args : List Cell) (line : Option Nat) :
    Along R (fun scope => scope.globalNames = []) (argumentScope parameters args line) := by
  have bound (scope : Scope) (ps : List String) (as : List Cell) (h : scope.globalNames = []) :
      Along R (fun scope => scope.globalNames = []) (bindArguments scope ps as) := by
    fun_induction bindArguments scope ps as with
    | case1 scope as => exact pure h
    | case2 scope p ps ih => exact (newCell _).after fun c => ih c h
    | case3 scope p ps a as ih => exact ih h
  unfold Exec.argumentScope
  split
  · exact throw _
  · exact bound _ _ _ rfl

end

/-! ## Objects -/

section

variable {R : ObjectOrder}

/-- An object that may be filled is given a new cell. -/
theorem bindFresh {x : Exec Cell} (h : Along R (fun _ => True) x) (hx : x.Stores) {r : ObjectRef}
    (hr : R.Made r) (name : String) :
    Along R (fun _ => True) (x >>= fun c => Exec.updateStore (·.setMember r name c)) :=
  fun s hs => Ends.bind (((h s hs).and (hx s)).mono (fun _ _ h => h) fun _ _ h => h.1)
    fun _ _ ⟨⟨_, ht⟩, hc⟩ => ⟨trivial, R.trans ht (R.setMember (.inl hr) hc)⟩

theorem bindMethod {r : ObjectRef} (hr : R.Made r) (name : String) (f : Callable) :
    Along R (fun _ => True) (bindMethod r name f) :=
  bindFresh (newCell _) (newCell_stores _) hr name

theorem bindMethods {r : ObjectRef} (hr : R.Made r) (ms : List (String × Callable)) :
    Along R (fun _ => True) (bindMethods r ms) := by
  induction ms with
  | nil => exact pure trivial
  | cons m ms ih => exact (bindMethod hr m.1 m.2).after fun _ => ih

theorem makeObject (t : ObjectType) : Along R R.Made (makeObject t) := by
  have allocated : Along R R.Made (Exec.allocate (·.allocObject t.name)) :=
    fun s hs => ⟨R.made hs, R.allocObject s t.name⟩
  exact allocated.bind fun r hr => (bindMethods hr _).after fun _ => pure hr

/-- A member is bound only where it is missing. -/
theorem newMember {s : State} {owner : Cell} {name : String}
    (h : ∀ r, s.store.get owner = .object r → (s.store.object r).members.find? name = none)
    (line : Option Nat) :
    (newMember owner name line).Ends s (fun _ t => True ∧ R.Le s t) fun _ t => R.Le s t := by
  let u : State := { s with store := (s.store.alloc .undefined).2 }
  have begun : R.Le s u := R.quiet ⟨⟨rfl, rfl, by simp [u, Store.alloc]⟩, rfl, rfl⟩
  refine Ends.bind (Q := fun c t => t = u ∧ c.index < u.store.cells.size)
    ⟨rfl, newCell_stores .undefined s⟩ fun c t ht => ?_
  obtain ⟨rfl, inside⟩ := ht
  refine Ends.bind (Q := fun _ t => R.Le s t) ?_ fun _ _ ht => ⟨trivial, ht⟩
  unfold addMember
  rw [ends_value_bind]
  split
  · next r hr =>
    refine R.trans begun (R.setMember (s := u) (.inr ?_) inside)
    exact h r (s.store.get_alloc_undefined owner ▸ hr)
  · exact begun

/-- Where no member is found, nothing has changed. -/
theorem member?_ends (owner : Cell) (name : String) (s : State) :
    (member? owner name).Ends s
      (fun c t => s.Quiet t ∧ (c = none → t = s ∧ ∀ r, s.store.get owner = .object r →
        (s.store.object r).members.find? name = none))
      fun _ _ => False := by
  have made (v : Option Value) (h : ∀ r, s.store.get owner ≠ .object r) :
      (Exec.newCell? v).Ends s
        (fun c t => s.Quiet t ∧ (c = none → t = s ∧ ∀ r, s.store.get owner = .object r →
          (s.store.object r).members.find? name = none))
        fun _ _ => False := by
    cases v with
    | none => exact ⟨.refl s, fun _ => ⟨rfl, fun r hr => absurd hr (h r)⟩⟩
    | some v => exact ⟨⟨⟨rfl, rfl, by simp⟩, rfl, rfl⟩, fun h => by cases h⟩
  unfold member?
  rw [ends_value_bind]
  split
  · next hv => exact made _ (by simp [hv])
  · next hv => exact made _ (by simp [hv])
  · next hv => exact made _ (by simp [hv])
  · next r hv =>
    refine ⟨.refl s, fun missing => ⟨rfl, fun r' hr' => ?_⟩⟩
    rw [hv] at hr'
    cases hr'
    exact missing
  · next other =>
    exact ⟨.refl s, fun _ => ⟨rfl, fun r hr => absurd hr (other r)⟩⟩

theorem evaluateMember (owner : Cell) (name : String) (use : Use) (line : Nat) :
    Along R (fun _ => True) (evaluateMember owner name use line) := by
  intro s hs
  unfold Exec.evaluateMember
  refine Ends.bind ((member?_ends owner name s).mono (fun _ _ h => h) fun _ _ h => h.elim) ?_
  rintro c t ⟨same, missing⟩
  cases c with
  | some c => exact ⟨trivial, R.quiet same⟩
  | none =>
    obtain ⟨rfl, missing⟩ := missing rfl
    cases use with
    | operand => exact R.refl t
    | location => exact newMember missing (some line)

theorem bindParent {r : ObjectRef} (hr : R.Made r) : Along R (fun _ => True) (bindParent r) := by
  have parent : Along R (fun _ => True) copyInstant := by
    refine after (x := get) (read fun _ => trivial) fun s => ?_
    split
    · exact copyCell _
    · exact newCell _
  exact bindFresh parent copyInstant_stores hr "parent"

end

/-! ## Scopes -/

section

variable {R : HeapOrder} {Q : α → Prop} {x : Exec α}

/-- A step that changes nothing of what is shared. -/
theorem of_shared (h : ∀ s, x.Ends s (fun a t => Q a ∧ s.SameShared t) fun _ t => s.SameShared t) :
    Along R Q x :=
  fun s _ => (h s).mono (fun _ _ ⟨ha, ht⟩ => ⟨ha, R.shared ht⟩) fun _ _ ht => R.shared ht

theorem mapTop (f : Scope → Scope) : Along R (fun _ => True) (modify (·.mapTop f)) :=
  update fun s => R.shared (s.sameShared_mapTop f)

theorem addGlobal (name : String) (c : Cell) (line : Option Nat) :
    Along R (fun _ => True) (addGlobal name c line) := by
  intro s _
  refine .addGlobal (fun top below hg missing => ?_) fun _ _ => R.refl s
  exact ⟨trivial, R.addGlobal c hg missing⟩

theorem addLocal (name : String) (c : Cell) : Along R (fun _ => True) (addLocal name c) :=
  of_shared fun s => .addLocal (fun _ => ⟨trivial, s.sameShared_mapTop _⟩) fun _ => .refl s

theorem addName (name : String) (c : Cell) (line : Option Nat) :
    Along R (fun _ => True) (addName name c line) := fun s hs =>
  .addName (fun _ _ => addLocal name c s hs) fun _ => addGlobal name c line s hs

theorem evaluateName (name : String) (use : Use) (line : Nat) :
    Along R (fun _ => True) (evaluateName name use line) := by
  refine after (x := Exec.find? name) (read fun _ => trivial) fun c => ?_
  split
  · exact pure trivial
  · cases use with
    | operand => exact throw _
    | location => exact (newCell _).after fun c => (addName name c _).after fun _ => pure trivial

theorem addType (name : String) (t : ObjectType) (line : Option Nat) :
    Along R (fun _ => True) (addType name t line) := by
  intro s _
  refine .addType (fun old _ _ => ?_) (fun top below hg missing => ?_) ?_ fun _ => ?_
  · exact ⟨trivial, R.refl s⟩
  · exact ⟨trivial, R.addType t hg missing⟩
  · exact R.refl s
  · exact R.refl s

theorem declareFunction (f : FunctionDef Stmt) :
    Along R (fun _ => True) (declareFunction f) := by
  refine after (x := Exec.find? f.name) (read fun _ => trivial) fun c => ?_
  split
  · refine after (x := Exec.value _) (read fun _ => trivial) fun v => ?_
    split
    · split
      · exact pure trivial
      · exact throw _
    · exact throw _
  · refine (newCell _).after fun c => after (x := get) (read fun _ => trivial) fun s => ?_
    split
    · exact addGlobal _ _ _
    · exact addLocal _ _

theorem prepared {x : Exec Unit} (body : List Stmt) (h : Along R (fun _ => True) x) :
    Along R (fun _ => True) (prepareAll body >>= fun _ => x) := by
  have declarations : (Fragment.making fun _ => True).Declarations
      fun x _ => Along R (fun _ => True) x :=
    { pure := pure trivial
      bind := fun hx hy => hx.after fun _ => hy
      declareFunction := fun f _ => declareFunction f
      addType := fun name t line _ => addType name t line }
  exact (declarations.prepareAll ((Fragment.making_full _).declaresAll body)).after fun _ => h

theorem addAnonymous (c : Cell) : Along R (fun _ => True) (addAnonymous c) := by
  intro s _
  refine .addAnonymous (fun _ => ?_) (fun top below hg => ?_) fun _ => ?_
  · exact ⟨trivial, R.shared (s.sameShared_mapTop _)⟩
  · exact ⟨trivial, R.anonymous c hg⟩
  · exact R.refl s

theorem popLocalScope : Along R (fun _ => True) popLocalScope :=
  of_shared fun s => .popLocalScope (fun _ _ _ => ⟨trivial, .of_eq rfl rfl⟩) fun _ => .refl s

theorem popInstant : Along R (fun _ => True) popInstant :=
  of_shared fun s => .popInstant (fun _ _ _ => ⟨trivial, .of_eq rfl rfl⟩) fun _ => .refl s

/-! ## Steps around steps -/

theorem inBlock {x : Exec Unit} (h : Along R (fun _ => True) x) :
    Along R (fun _ => True) (inBlock x) :=
  after (update fun _ => R.shared (.of_eq rfl rfl)) fun _ => h.ensuring popLocalScope

theorem inRealization {x : Exec Unit} (h : Along R (fun _ => True) x) (obj : Cell)
    (members : Scope) : Along R (fun _ => True) (inRealization obj members x) := by
  have names : Along R (fun _ => True) innermostNames := by
    refine of_shared fun s => ?_
    unfold innermostNames
    rw [ends_get_bind]
    split
    · exact ⟨trivial, .of_eq rfl rfl⟩
    · exact ⟨trivial, .of_eq rfl rfl⟩
  exact after (update fun _ => R.shared (.of_eq rfl rfl)) fun _ =>
    after (x := pushInstant obj) (update fun _ => R.shared (.of_eq rfl rfl)) fun _ =>
      (h.after fun _ => names).ensuring (popInstant.after fun _ => popLocalScope)

theorem activate {x : Exec Cell} (h : Along R (fun _ => True) x) (scope : Scope)
    (members : Option Scope) (line : Option Nat) :
    Along R (fun _ => True) (activate scope members line x) := by
  have entered : Along R (fun _ => True) (enterCall line) := by
    refine of_shared fun s => ?_
    unfold Ends
    rcases Int.lt_or_le s.callDepth s.maxCallDepth with hlt | hle
    · rw [enterCall_of_lt hlt]
      exact ⟨trivial, .of_eq rfl rfl⟩
    · rw [enterCall_of_le hle]
      exact .of_eq rfl rfl
  have pushed : Along R (fun _ => True) (modify (·.pushCall scope members)) :=
    update fun s => R.shared (by cases members <;> exact .of_eq rfl rfl)
  exact entered.after fun _ => after (x := localDepth) (read fun _ => trivial) fun depth =>
    pushed.after fun _ => (h.mapFailure _).ensuring (update fun _ => R.shared (.of_eq rfl rfl))

theorem inCall {x : Exec Cell} (h : Along R (fun _ => True) x) (parameters : List String)
    (owner : Option ObjectRef) (args : List Cell) (line : Option Nat) :
    Along R (fun _ => True) (inCall parameters owner args line x) :=
  (ownerScope owner).bind fun members _ => (argumentScope parameters args line).bind
    fun scope _ => h.activate scope members line

end

/-! ## Realizations -/

theorem promote {R : ObjectOrder} (hp : R.Promotes) {r : ObjectRef} (hr : R.Made r)
    (bound : List (String × Cell)) : Along R (fun _ => True) (promote r bound) := by
  induction bound with
  | nil => exact pure trivial
  | cons b bound ih =>
    unfold Exec.promote
    refine after (x := storage) (read fun _ => trivial) fun s => ?_
    dsimp only
    split
    · refine after (x := Exec.value b.2) (read fun _ => trivial) fun v => ?_
      split
      · exact (bindMethod hr _ _).after fun _ => ih
      · exact after (x := Exec.updateStore _) (fun s _ => ⟨trivial, hp s _ _ hr⟩) fun _ => ih
    · exact ih

theorem fillObject {R : ProgramOrder} {x : Exec Unit} (h : Along R (fun _ => True) x) (obj : Cell)
    {r : ObjectRef} (hr : R.Made r) :
    Along R (fun _ => True) (fillObject obj r x) :=
  (memberScope r).bind fun members _ => (h.inRealization obj members).after fun _ =>
    (promote R.promotes hr _).after fun _ => bindParent hr

end Along

end Exec

/-! ## The logic -/

open Exec (Along)

/-- The whole language, where names may or may not be declared as global. -/
def Fragment.declaring (d : Prop) : Fragment := { Fragment.making fun _ => True with globals := d }

/-- Following an order is a logic of all steps that run no program and change no object, if cells
without a name may be kept. -/
def QuietOrder.cells (R : QuietOrder) {d : Prop}
    (addAnonymous : ∀ c, Along R (fun _ => True) (Exec.addAnonymous c)) :
    CellLogic (.declaring d) where
  Rel _ _ Q x _ := Along R Q x
  pure := Along.pure
  bind := Along.bind
  mono _ := Along.mono
  throw f _ := Along.throw f
  located _ := Along.mapFailure _
  storage := Along.read fun _ => trivial
  value _ := Along.read fun _ => trivial
  find? _ := Along.read fun _ => trivial
  findType? _ := Along.read fun _ _ _ => trivial
  newCell v _ := Along.newCell v
  allocate _ h := Along.allocate (fun s => (h s).objects) fun s =>
    Nat.le_of_eq (congrArg Array.size (h s).cells).symm
  store c v line _ := Along.store c v line
  copyCell := Along.copyCell
  append := Along.append
  evaluateList es h := Along.evaluateList es h
  addAnonymous := addAnonymous
  print _ := Along.update fun _ => R.quiet (.of_eq rfl rfl rfl rfl)
  log _ _ _ := Along.update fun _ => R.quiet (.of_eq rfl rfl rfl rfl)
  randomBetween _ _ := Along.of_quiet fun _ => ⟨trivial, .of_eq rfl rfl rfl rfl⟩
  raise _ := Along.update fun _ => R.quiet (.of_eq rfl rfl rfl rfl)
  setReturn := Along.setReturn

/-- Cells without a name may be kept where scopes may change. -/
def HeapOrder.cells (R : HeapOrder) : CellLogic (.making fun _ => True) :=
  R.toQuietOrder.cells (d := True) Along.addAnonymous

namespace ProgramOrder

variable (R : ProgramOrder)

/-- Following an order that allows all changes is a logic of all programs. -/
def logic : NodeLogic (.making fun _ => True) where
  toCellLogic := R.toHeapOrder.cells
  Fresh _ _ x _ := Along R (fun _ => True) x
  Made := R.Made
  jumps _ h := h
  evaluateName name use line _ := Along.evaluateName name use line
  fresh h := h
  prepared {_ body _ _} _ h := Along.prepared body h
  takeResult := Along.takeResult
  inBlock := Along.inBlock
  makeObject t _ := Along.makeObject t
  evaluateMember := Along.evaluateMember
  fillObject obj _ hr h := h.fillObject obj hr
  declareGlobal _ _ := Along.mapTop _
  loopBefore {_ d _ y _ v} limit _ hc hb hn :=
    Along.loopParts.loopBefore (d := d) (y := y) (v := v) limit hc hb hn
  loopAfter {_ d _ y} limit _ hc hb := Along.loopParts.loopAfter (d := d) (y := y) limit hc hb

/-- The functions of a host follow the order. -/
def OfHost (host : Host) : Prop :=
  ∀ (name : String) (s : State), R.From s → R.Le s (finalState (host name s))

variable {R}

theorem OfHost.along {host : Host} (h : R.OfHost host) (name : String) :
    Along R (fun _ => True) (host name) := fun s hs =>
  (Exec.ends_of_final (h name s hs)).mono (fun _ _ ht => ⟨trivial, ht⟩) fun _ _ ht => ht

/-- The interpreter follows the order, whatever it runs. -/
theorem followed {host : Host} (hh : R.OfHost host) (n : Nat) :
    R.logic.AgreeOn .any (Interp.withFuel host n) (Interp.withFuel host n) := by
  have full := Fragment.making_full fun _ => True
  refine NodeLogic.agreeOn_withFuel (L := R.logic) trivial trivial
    (fun _ => full.exprParts fun _ _ _ => trivial) (fun {inLoop st} _ => full.stmtParts inLoop st)
    (Along.read fun _ => trivial) (fun h _ => Along.runAll (fun st => @h st trivial) _)
    (fun n on f owner args line _ => ?_) n
  exact Along.inCall (on.runCallable line trivial (fun name _ _ => hh.along name)
    fun _ body _ _ => ⟨full.declaresAll body, fun _ _ => trivial⟩) _ owner args line

end ProgramOrder

end CellScript
