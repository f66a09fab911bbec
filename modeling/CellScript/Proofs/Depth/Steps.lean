import CellScript.Proofs.Depth.Straight
import CellScript.Proofs.Located.Lines

/-!
# Steps of straight programs

What a step of a straight program does does not depend on the fuel, as long as there is enough, and
the step comes to an end. This is a logic of programs for each number of further calls that there is
room for; a call leads to the logic with room for one less.

* `State.Straight`: all programs in a state are straight;
* `Exec.Finishes`: two steps do the same and come to an end in a state of that kind, with as many
  calls active as before;
* `finishing`: the logic.
-/

namespace CellScript

/-- All programs in the state are straight. -/
structure State.Straight (bound : Nat) (s : State) : Prop where
  cells : ∀ v ∈ s.store.cells, v.Straight bound
  types : ∀ scope ∈ s.globals, ∀ t ∈ scope.types.entries, (Fragment.straight bound).type t.2

/-- The programs in the second state are straight, and there are as many calls as in the first. -/
structure State.StraightFrom (bound : Nat) (s t : State) : Prop where
  straight : t.Straight bound
  callDepth : t.callDepth = s.callDepth
  maxCallDepth : t.maxCallDepth = s.maxCallDepth

/-- There is room for no more than a number of further calls. -/
def State.RoomFor (calls : Nat) (s : State) : Prop := s.maxCallDepth - s.callDepth ≤ calls

namespace State

variable {bound calls : Nat} {s t u : State}

theorem Straight.value (h : s.Straight bound) (c : Cell) : (s.store.get c).Straight bound := by
  unfold Store.get
  cases hv : s.store.cells[c.index]? with
  | none => trivial
  | some v => exact h.cells v (Array.mem_of_getElem? hv)

theorem Straight.congr (h : s.Straight bound) (hs : t.store = s.store)
    (hg : t.globals = s.globals) : t.Straight bound :=
  ⟨hs ▸ h.cells, hg ▸ h.types⟩

theorem Straight.type (h : s.Straight bound) {name : String} {t : ObjectType}
    (ht : s.findType? name = some t) : (Fragment.straight bound).type t := by
  obtain ⟨scope, hscope, hmem⟩ := State.mem_of_findTypeIn ht
  exact h.types scope hscope _ hmem

/-- A change of the top global scope where new types are straight. -/
theorem Straight.mapGlobal {top a : Scope} {below : List Scope} (h : s.Straight bound)
    (hg : s.globals = top :: below)
    (ha : ∀ t ∈ a.types.entries, t ∈ top.types.entries ∨ (Fragment.straight bound).type t.2) :
    State.Straight bound { s with globals := a :: below } := by
  refine ⟨h.cells, fun scope hscope => ?_⟩
  rcases List.mem_cons.1 hscope with rfl | hscope
  · exact fun t ht => (ha t ht).elim (h.types top (hg ▸ List.mem_cons_self) t) id
  · exact h.types scope (hg ▸ List.mem_cons_of_mem _ hscope)

theorem StraightFrom.refl (h : s.Straight bound) : s.StraightFrom bound s := ⟨h, rfl, rfl⟩

theorem Straight.mapTop (h : s.Straight bound) (f : Scope → Scope) :
    s.StraightFrom bound (s.mapTop f) := by
  unfold State.mapTop
  split
  · exact .refl h
  · exact ⟨⟨h.cells, h.types⟩, rfl, rfl⟩

theorem StraightFrom.trans (h : s.StraightFrom bound t) (h' : t.StraightFrom bound u) :
    s.StraightFrom bound u :=
  ⟨h'.straight, h'.callDepth.trans h.callDepth, h'.maxCallDepth.trans h.maxCallDepth⟩

theorem StraightFrom.roomFor (h : s.StraightFrom bound t) (hs : s.RoomFor calls) :
    t.RoomFor calls := by
  unfold RoomFor
  rw [h.callDepth, h.maxCallDepth]
  exact hs

end State

namespace Exec

variable {α β : Type}

/-- Begun where all programs are straight, with room for no more than a number of further calls, the
two steps do the same, and they come to an end. -/
structure Finishes (bound calls : Nat) (Q : α → Prop) (x y : Exec α) : Prop where
  same (s : State) : s.Straight bound → s.RoomFor calls → y s = x s
  ends (s : State) : s.Straight bound → s.RoomFor calls →
    x.Ends s (fun a t => Q a ∧ s.StraightFrom bound t)
      fun f t => f ≠ .outOfFuel ∧ s.StraightFrom bound t

namespace Finishes

variable {bound calls : Nat} {P Q : α → Prop}

/-! ## Sequences and failures -/

/-- What a single step is to be shown to do. -/
theorem self {x : Exec α} (h : ∀ s : State, s.Straight bound →
    x.Ends s (fun a t => Q a ∧ s.StraightFrom bound t)
      fun f t => f ≠ .outOfFuel ∧ s.StraightFrom bound t) : Finishes bound calls Q x x :=
  ⟨fun _ _ _ => rfl, fun s hs _ => h s hs⟩

theorem pure {a : α} (h : Q a) : Finishes bound calls Q (pure a) (pure a) :=
  self fun _ hs => ⟨h, .refl hs⟩

theorem throw {f : Failure} (h : f ≠ .outOfFuel) :
    Finishes bound calls Q (throw f : Exec α) (throw f) :=
  self fun _ hs => ⟨h, .refl hs⟩

theorem fail (cause : Cause) (line : Option Nat) :
    Finishes bound calls Q (fail cause line : Exec α) (fail cause line) :=
  throw (by simp)

theorem bind {R : β → Prop} {x y : Exec α} {f g : α → Exec β} (hx : Finishes bound calls P x y)
    (hf : ∀ a, P a → Finishes bound calls R (f a) (g a)) :
    Finishes bound calls R (x >>= f) (y >>= g) := by
  refine ⟨fun s hs hr => ?_, fun s hs hr => ?_⟩
  · have first := hx.ends s hs hr
    change EStateM.bind y g s = EStateM.bind x f s
    unfold EStateM.bind
    rw [hx.same s hs hr]
    cases h : x s with
    | ok a t =>
      obtain ⟨ha, ht⟩ := first.ok h
      exact (hf a ha).same t ht.straight (ht.roomFor hr)
    | error e t => rfl
  · refine Ends.bind (hx.ends s hs hr) fun a t ⟨ha, ht⟩ => ?_
    refine ((hf a ha).ends t ht.straight (ht.roomFor hr)).mono ?_ ?_
    · exact fun _ _ ⟨hb, hu⟩ => ⟨hb, ht.trans hu⟩
    · exact fun _ _ ⟨he, hu⟩ => ⟨he, ht.trans hu⟩

theorem mono {x y : Exec α} (hQ : ∀ a, P a → Q a) (h : Finishes bound calls P x y) :
    Finishes bound calls Q x y :=
  ⟨h.same, fun s hs hr => (h.ends s hs hr).mono (fun a _ ⟨ha, ht⟩ => ⟨hQ a ha, ht⟩) fun _ _ h => h⟩

theorem mapFailure {x y : Exec α} {g : Failure → Failure}
    (hg : ∀ f, f ≠ .outOfFuel → g f ≠ .outOfFuel) (h : Finishes bound calls Q x y) :
    Finishes bound calls Q (mapFailure g x) (mapFailure g y) := by
  refine ⟨fun s hs hr => ?_, fun s hs hr => ?_⟩
  · unfold Exec.mapFailure
    rw [h.same s hs hr]
  · exact Ends.mapFailure ((h.ends s hs hr).mono (fun _ _ h => h) fun f _ ⟨hf, ht⟩ => ⟨hg f hf, ht⟩)

theorem located {x y : Exec α} (line : Option Nat) (h : Finishes bound calls Q x y) :
    Finishes bound calls Q (Exec.mapFailure (Failure.located line) x)
      (Exec.mapFailure (Failure.located line) y) := by
  refine h.mapFailure fun f hf => ?_
  unfold Failure.located
  split
  · simp
  · exact hf

theorem overrun {x y : Exec α} (line : Option Nat) (h : Finishes bound calls Q x y) :
    Finishes bound calls Q (Exec.mapFailure (Exec.overrun line) x)
      (Exec.mapFailure (Exec.overrun line) y) := by
  refine h.mapFailure fun f hf => ?_
  unfold Exec.overrun
  split
  · simp
  · exact hf

theorem ensuring {x y : Exec α} {finish : Exec Unit} (hx : Finishes bound calls Q x y)
    (hf : Finishes bound calls (fun _ => True) finish finish) :
    Finishes bound calls Q (ensuring x finish) (ensuring y finish) := by
  refine ⟨fun s hs hr => ?_, fun s hs hr => Ends.ensuring ((hx.ends s hs hr).mono ?_ ?_)⟩
  · unfold Exec.ensuring
    rw [hx.same s hs hr]
  · rintro a t ⟨ha, ht⟩
    exact (hf.ends t ht.straight (ht.roomFor hr)).mono (fun _ _ h => ⟨ha, ht.trans h.2⟩)
      fun _ _ h => ⟨h.1, ht.trans h.2⟩
  · rintro f t ⟨hne, ht⟩
    exact (hf.ends t ht.straight (ht.roomFor hr)).mono (fun _ _ h => ⟨hne, ht.trans h.2⟩)
      fun _ _ h => ⟨h.1, ht.trans h.2⟩

/-- Reading something of the state. -/
theorem read {f : State → α} (h : ∀ s : State, s.Straight bound → Q (f s)) :
    Finishes bound calls Q (do return f (← get)) (do return f (← get)) :=
  self fun s hs => ⟨h s hs, .refl hs⟩

/-- Steps that depend on the state. -/
theorem choose {f g : State → Exec α} (h : ∀ s, Finishes bound calls Q (f s) (g s)) :
    Finishes bound calls Q (get >>= f) (get >>= g) :=
  ⟨fun s hs hr => (h s).same s hs hr, fun s hs hr => (h s).ends s hs hr⟩

/-! ## Storage -/

theorem allocate {f : Store → α × Store}
    (h : ∀ s : Store, (∀ v ∈ s.cells, v.Straight bound) →
      Q (f s).1 ∧ ∀ v ∈ (f s).2.cells, v.Straight bound) :
    Finishes bound calls Q (allocate f) (allocate f) :=
  self fun s hs => ⟨(h s.store hs.cells).1, ⟨(h s.store hs.cells).2, hs.types⟩, rfl, rfl⟩

theorem storage : Finishes bound calls (fun _ => True) storage storage := read fun _ _ => trivial

theorem value (c : Cell) : Finishes bound calls (Value.Straight bound) (value c) (value c) :=
  read fun _ hs => hs.value c

/-! ## Scopes, stacks and flags -/

/-- A change of what holds no programs and counts no calls. -/
theorem update {f : State → State} (hs : ∀ s, (f s).store = s.store)
    (hg : ∀ s, (f s).globals = s.globals) (hc : ∀ s, (f s).callDepth = s.callDepth)
    (hm : ∀ s, (f s).maxCallDepth = s.maxCallDepth) :
    Finishes bound calls (fun _ => True) (modify f) (modify f) :=
  self fun s h => ⟨trivial, h.congr (hs s) (hg s), hc s, hm s⟩

theorem addLocal (name : String) (c : Cell) :
    Finishes bound calls (fun _ => True) (addLocal name c) (addLocal name c) :=
  self fun _ hs => .addLocal (fun _ => ⟨trivial, hs.mapTop _⟩) fun _ => ⟨by simp, .refl hs⟩

theorem addGlobal (name : String) (c : Cell) (line : Option Nat) :
    Finishes bound calls (fun _ => True) (addGlobal name c line) (addGlobal name c line) := by
  refine self fun s hs => .addGlobal (fun top below hg _ => ?_) fun _ _ => ⟨by simp, .refl hs⟩
  exact ⟨trivial, hs.mapGlobal hg fun _ => Or.inl, rfl, rfl⟩

theorem addType (name : String) {t : ObjectType} (line : Option Nat)
    (ht : (Fragment.straight bound).type t) :
    Finishes bound calls (fun _ => True) (addType name t line) (addType name t line) := by
  refine self fun s hs => .addType (fun old _ _ => ?_) (fun top below hg _ => ?_) ?_ fun _ => ?_
  · exact ⟨trivial, .refl hs⟩
  · refine ⟨trivial, hs.mapGlobal hg fun u hu => ?_, rfl, rfl⟩
    rcases Bindings.mem_put hu with rfl | hu
    · exact Or.inr ht
    · exact Or.inl hu
  · exact ⟨by simp, .refl hs⟩
  · exact ⟨by simp, .refl hs⟩

theorem addAnonymous (c : Cell) :
    Finishes bound calls (fun _ => True) (addAnonymous c) (addAnonymous c) := by
  refine self fun s hs => .addAnonymous (fun _ => ?_) (fun top below hg => ?_) fun _ => ?_
  · exact ⟨trivial, hs.mapTop _⟩
  · exact ⟨trivial, hs.mapGlobal hg fun _ => Or.inl, rfl, rfl⟩
  · exact ⟨by simp, .refl hs⟩

theorem setReturn (c : Cell) (line : Option Nat) :
    Finishes bound calls (fun _ => True) (setReturn c line) (setReturn c line) :=
  self fun _ hs => .setReturn (fun _ _ _ => ⟨trivial, ⟨hs.cells, hs.types⟩, rfl, rfl⟩)
    fun _ => ⟨by simp, .refl hs⟩

theorem popReturn : Finishes bound calls (fun _ => True) popReturn popReturn :=
  self fun _ hs => .popReturn (fun _ _ _ => ⟨trivial, ⟨hs.cells, hs.types⟩, rfl, rfl⟩)
    fun _ => ⟨by simp, .refl hs⟩

theorem popLocalScope : Finishes bound calls (fun _ => True) popLocalScope popLocalScope :=
  self fun _ hs => .popLocalScope (fun _ _ _ => ⟨trivial, ⟨hs.cells, hs.types⟩, rfl, rfl⟩)
    fun _ => ⟨by simp, .refl hs⟩

theorem popInstant : Finishes bound calls (fun _ => True) popInstant popInstant :=
  self fun _ hs => .popInstant (fun _ _ _ => ⟨trivial, ⟨hs.cells, hs.types⟩, rfl, rfl⟩)
    fun _ => ⟨by simp, .refl hs⟩

end Finishes

end Exec

open Exec (Finishes)

/-- Finishing where there is room for a number of further calls, whatever the storage holds. -/
def ending (bound calls : Nat) : StoreLogic (.straight bound) where
  Rel _ _ Q x y := Finishes bound calls Q x y
  pure := Finishes.pure
  bind := Finishes.bind
  mono _ := Finishes.mono
  throw _ := Finishes.throw
  located := Finishes.located
  storage := Finishes.storage
  value := Finishes.value
  allocate _ := Finishes.allocate
  find? _ := Finishes.read fun _ _ => trivial
  findType? _ := Finishes.read fun _ hs _ ht => hs.type ht
  instant? := Finishes.read fun _ _ => trivial
  addAnonymous := Finishes.addAnonymous
  print _ := Finishes.update (fun _ => rfl) (fun _ => rfl) (fun _ => rfl) fun _ => rfl
  log _ _ _ := Finishes.update (fun _ => rfl) (fun _ => rfl) (fun _ => rfl) fun _ => rfl
  randomBetween _ _ := Finishes.self fun _ hs => ⟨trivial, hs.congr rfl rfl, rfl, rfl⟩
  raise _ := Finishes.update (fun _ => rfl) (fun _ => rfl) (fun _ => rfl) fun _ => rfl
  setReturn := Finishes.setReturn

namespace Exec.Finishes

variable {bound calls : Nat}

theorem newCell {v : Value} (hv : v.Straight bound) :
    Finishes bound calls (fun _ => True) (newCell v) (newCell v) :=
  (ending bound calls).newCell hv

/-! ## Names -/

theorem evaluateName (name : String) (use : Use) (line : Nat) :
    Finishes bound calls (fun _ => True) (evaluateName name use line)
      (evaluateName name use line) := by
  refine bind (P := fun _ => True) (read fun _ _ => trivial) fun c _ => ?_
  split
  · exact pure trivial
  · cases use with
    | operand => exact fail _ _
    | location =>
      refine (newCell (v := .undefined) trivial).bind fun c _ =>
        bind (P := fun _ => True) (choose fun s => ?_) fun _ _ => pure trivial
      split
      · exact addLocal name c
      · exact addGlobal name c _

theorem declareFunction (f : FunctionDef Stmt)
    (hf : Callable.Straight bound (.script f.parameters f.body f.id)) :
    Finishes bound calls (fun _ => True) (declareFunction f) (declareFunction f) := by
  refine bind (P := fun _ => True) (read fun _ _ => trivial) fun c _ => ?_
  split
  · refine (value _).bind fun v _ => ?_
    split
    · split
      · exact pure trivial
      · exact fail _ _
    · exact fail _ _
  · refine (newCell (v := .function (.script f.parameters f.body f.id) none) hf).bind fun c _ =>
      choose fun s => ?_
    split
    · exact addGlobal f.name c _
    · exact addLocal f.name c

/-! ## Steps around steps -/

theorem takeResult {x y : Exec Unit} (h : Finishes bound calls (fun _ => True) x y) :
    Finishes bound calls (fun _ => True) (takeResult x) (takeResult y) :=
  (newCell (v := .undefined) trivial).bind fun _ _ =>
    bind (P := fun _ => True) (update (fun _ => rfl) (fun _ => rfl) (fun _ => rfl) fun _ => rfl)
      fun _ _ => h.bind fun _ _ =>
        bind (P := fun _ => True) (update (fun _ => rfl) (fun _ => rfl) (fun _ => rfl) fun _ => rfl)
          fun _ _ => popReturn

theorem inBlock {x y : Exec Unit} (h : Finishes bound calls (fun _ => True) x y) :
    Finishes bound calls (fun _ => True) (inBlock x) (inBlock y) :=
  bind (P := fun _ => True) (update (fun _ => rfl) (fun _ => rfl) (fun _ => rfl) fun _ => rfl)
    fun _ _ => h.ensuring popLocalScope

theorem inRealization {x y : Exec Unit} (h : Finishes bound calls (fun _ => True) x y)
    (obj : Cell) (members : Scope) :
    Finishes bound calls (fun _ => True) (inRealization obj members x)
      (inRealization obj members y) := by
  have names : Finishes bound calls (fun _ => True) innermostNames innermostNames := by
    refine choose fun s => ?_
    split
    · exact pure trivial
    · exact pure trivial
  exact bind (P := fun _ => True)
    (update (fun _ => rfl) (fun _ => rfl) (fun _ => rfl) fun _ => rfl) fun _ _ =>
      bind (P := fun _ => True)
        (update (fun _ => rfl) (fun _ => rfl) (fun _ => rfl) fun _ => rfl) fun _ _ =>
        (h.bind fun _ _ => names).ensuring (popInstant.bind fun _ _ => popLocalScope)

end Exec.Finishes

/-- What straight programs do where there is room for a number of further calls. -/
def finishing (bound calls : Nat) : ProgramLogic (.straight bound) where
  toStepLogic := (ending bound calls).steps fun _ =>
    Finishes.self fun _ hs => ⟨trivial, hs.mapTop _⟩
  Fresh _ _ x y := Finishes bound calls (fun _ => True) x y
  jumps h := h.elim
  evaluateName name use line _ := Finishes.evaluateName name use line
  fresh h := h
  prepared hd h := by
    have declarations : (Fragment.straight bound).Declarations
        fun x y => Finishes bound calls (fun _ => True) x y :=
      { pure := .pure trivial
        bind := fun hx hy => hx.bind fun _ _ => hy
        declareFunction := Finishes.declareFunction
        addType := fun name _ => Finishes.addType name }
    exact (declarations.prepareAll hd).bind fun _ _ => h
  takeResult := Finishes.takeResult
  inBlock := Finishes.inBlock
  fillObject obj r h :=
    (ending bound calls).fillObject (l := .ofReturn) obj r fun _ _ => h.inRealization obj _
  loopBefore _ h := h.elim
  loopAfter _ h := h.elim

end CellScript
