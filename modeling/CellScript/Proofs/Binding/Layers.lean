import CellScript.Proofs.Along
import CellScript.Proofs.Fuel

/-!
# Orders that look at the innermost scope

Orders that programs follow (`Proofs.Along`) do not look at the local scopes. What is so of the
local scopes needs more: that a call, a block or a realization leaves them as they were, and that a
name is made where it is not found. An order on what is shared and one on the local scopes are kept
together by all programs, and the second one has to allow two changes of the innermost scope only: a
name that is not found is bound there to a cell of the storage, and names may be declared as global.

* `Layers`: the two orders, and `Layers.both`: the order that is made of them;
* `Exec.Layered`: a step leaves the scopes steady and follows both orders;
* `Exec.Inward`: what is run in a scope that has just been opened follows the first order, and the
  second one too where names may be declared as global in any case;
* `Layers.cells`, `Layers.logic`: following both orders is a logic of programs.
-/

namespace CellScript

open Exec (Along Framed FramedAlways)

/-! ## Orders -/

/-- An order that programs follow, and one that looks at the local scopes too. -/
structure Layers extends HeapOrder where
  Inner : State → State → Prop
  inner_trans {s t u : State} : Inner s t → Le t u → Inner t u → Inner s u
  /-- Where the local scopes are as they were, the first order is enough. -/
  level {s t : State} : Le s t → t.locals = s.locals → Inner s t
  /-- A change of the innermost scope that nothing searches for. -/
  unnamed (s : State) {f : Scope → Scope} : (∀ a, (f a).items = a.items) →
    (∀ a, (f a).globalNames = a.globalNames) → Inner s (s.mapTop f)
  named {s : State} {name : String} {c : Cell} : s.find? name = none →
    c.index < s.store.cells.size → Inner s (s.mapTop (·.add name c))

namespace Layers

/-- Both orders. -/
def both (Y : Layers) : ObjectOrder where
  Le s t := Y.Le s t ∧ Y.Inner s t
  From := Y.From
  refl s := ⟨Y.refl s, Y.level (Y.refl s) rfl⟩
  trans h h' := ⟨Y.trans h.1 h'.1, Y.inner_trans h.2 h'.1 h'.2⟩
  keeps hs h := Y.keeps hs h.1
  quiet h := ⟨Y.quiet h, Y.level (Y.quiet h) h.locals⟩
  Made := Y.Made
  allocObject s typeName := ⟨Y.allocObject s typeName, Y.level (Y.allocObject s typeName) rfl⟩
  made := Y.made
  setMember h hc := ⟨Y.setMember h hc, Y.level (Y.setMember h hc) rfl⟩

/-- Both orders, and the scopes stay steady. -/
def steadily (Y : Layers) : ObjectOrder where
  Le s t := Y.both.Le s t ∧ s.Steady (fun _ => False) t
  From := Y.From
  refl s := ⟨Y.both.refl s, .refl s⟩
  trans h h' := ⟨Y.both.trans h.1 h'.1, h.2.trans h'.2⟩
  keeps hs h := Y.keeps hs h.1.1
  quiet h := ⟨Y.both.quiet h, .of_eq h.locals h.globals h.instants⟩
  Made := Y.Made
  allocObject s typeName := ⟨Y.both.allocObject s typeName, .of_eq rfl rfl rfl⟩
  made := Y.made
  setMember h hc := ⟨Y.both.setMember h hc, .of_eq rfl rfl rfl⟩

end Layers

instance : Coe Layers StateOrder := ⟨fun Y => Y.toStateOrder⟩

/-! ## Steps -/

namespace Exec

variable {α β : Type}

theorem addGlobal_locals (name : String) (c : Cell) (line : Option Nat) (s : State) :
    (addGlobal name c line).Ends s (fun _ t => t.locals = s.locals)
      fun _ t => t.locals = s.locals :=
  .addGlobal (fun _ _ _ _ => rfl) fun _ _ => rfl

theorem addType_locals (name : String) (t : ObjectType) (line : Option Nat) (s : State) :
    (addType name t line).Ends s (fun _ u => u.locals = s.locals)
      fun _ u => u.locals = s.locals :=
  .addType (fun _ _ _ => rfl) (fun _ _ _ _ => rfl) rfl fun _ => rfl

end Exec

namespace Layers

variable {Y : Layers} {α : Type} {Q : α → Prop} {x : Exec α}

/-- A step that leaves the local scopes as they are. -/
theorem of_level (h : Along Y Q x)
    (hl : ∀ s, x.Ends s (fun _ t => t.locals = s.locals) fun _ t => t.locals = s.locals) :
    Along Y.both Q x := fun s hs =>
  ((h s hs).and (hl s)).mono (fun _ _ h => ⟨h.1.1, h.1.2, Y.level h.1.2 h.2⟩)
    fun _ _ h => ⟨h.1, Y.level h.1 h.2⟩

theorem outer (h : Along Y.both Q x) : Along Y Q x := fun s hs =>
  (h s hs).mono (fun _ _ h => ⟨h.1, h.2.1⟩) fun _ _ h => h.1

theorem addAnonymous (c : Cell) : Along Y.both (fun _ => True) (Exec.addAnonymous c) := by
  intro s hs
  have outer := Along.addAnonymous (R := Y.toHeapOrder) c s hs
  have inner : (Exec.addAnonymous c).Ends s (fun _ t => Y.Inner s t) fun _ t => Y.Inner s t := by
    refine .addAnonymous (fun _ => ?_) (fun top below hg => ?_) fun _ => ?_
    · exact Y.unnamed s (fun _ => rfl) fun _ => rfl
    · exact Y.level (Y.anonymous c hg) rfl
    · exact Y.level (Y.refl s) rfl
  exact (outer.and inner).mono (fun _ _ h => ⟨trivial, h.1.2, h.2⟩) fun _ _ h => h

/-! ### Names -/

/-- A name that is not found can be bound to a cell of the storage. -/
theorem addLocalName {s : State} {name : String} {c : Cell} (h : s.find? name = none)
    (hc : c.index < s.store.cells.size) :
    (Exec.addLocal name c).Ends s (fun _ t => True ∧ Y.both.Le s t) fun _ t => Y.both.Le s t :=
  .addLocal (fun _ => ⟨trivial, Y.shared (s.sameShared_mapTop _), Y.named h hc⟩)
    fun _ => Y.both.refl s

theorem addGlobalName (name : String) (c : Cell) (line : Option Nat) :
    Along Y.both (fun _ => True) (Exec.addGlobal name c line) :=
  of_level (.addGlobal name c line) (Exec.addGlobal_locals name c line)

/-- What is done with a new cell while a name is not found. -/
theorem newCell_bind {s : State} (hs : Y.From s) {name : String} (hn : s.find? name = none)
    (v : Value) {f : Cell → Exec α}
    (h : ∀ c t, Y.From t → t.find? name = none → c.index < t.store.cells.size →
      (f c).Ends t (fun _ u => True ∧ Y.both.Le t u) fun _ u => Y.both.Le t u) :
    (Exec.newCell v >>= f).Ends s (fun _ t => True ∧ Y.both.Le s t) fun _ t => Y.both.Le s t := by
  refine Exec.Ends.bind (Q := fun c t => (t.find? name = none ∧ c.index < t.store.cells.size) ∧
    Y.both.Le s t) ⟨⟨hn, Exec.newCell_stores v s⟩, ?_⟩ fun c t ht => ?_
  · exact (Along.newCell (R := Y.both.toQuietOrder) v s hs).2
  · exact (h c t (Y.both.keeps hs ht.2) ht.1.1 ht.1.2).mono
      (fun _ _ hu => ⟨trivial, Y.both.trans ht.2 hu.2⟩) fun _ _ hu => Y.both.trans ht.2 hu

theorem evaluateName (name : String) (use : Use) (line : Nat) :
    Along Y.both (fun _ => True) (Exec.evaluateName name use line) := by
  intro s hs
  refine .evaluateName (fun c _ => ?_) (fun _ => Y.both.refl s) fun _ hf => ?_
  · exact ⟨trivial, Y.both.refl s⟩
  · refine newCell_bind hs hf .undefined fun c t ht missing inside => ?_
    have named : (Exec.addName name c (some line)).Ends t
        (fun _ u => True ∧ Y.both.Le t u) fun _ u => Y.both.Le t u := by
      refine .addName (fun _ _ => ?_) fun _ => ?_
      · exact addLocalName missing inside
      · exact addGlobalName name c _ t ht
    exact Exec.Ends.bind named fun _ _ hu => ⟨trivial, hu.2⟩

theorem declareFunction (f : FunctionDef Stmt) :
    Along Y.both (fun _ => True) (Exec.declareFunction f) := by
  intro s hs
  refine .declareFunction (fun c _ _ _ _ _ => ?_) (Y.both.refl s) (fun hf _ => ?_) fun hf _ => ?_
  · exact ⟨trivial, Y.both.refl s⟩
  · change (Exec.newCell f.toValue >>= fun c => Exec.addGlobal f.name c (some f.line)).Ends s _ _
    exact newCell_bind hs hf _ fun c t ht _ _ => addGlobalName f.name c _ t ht
  · change (Exec.newCell f.toValue >>= fun c => Exec.addLocal f.name c).Ends s _ _
    exact newCell_bind hs hf _ fun c t _ missing inside => addLocalName missing inside

theorem prepareAll (body : List Stmt) : Along Y.both (fun _ => True) (Exec.prepareAll body) := by
  have declarations : (Fragment.making fun _ => True).Declarations
      fun x _ => Along Y.both (fun _ => True) x :=
    { pure := .pure trivial
      bind := fun hx hy => hx.after fun _ => hy
      declareFunction := fun f _ => declareFunction f
      addType := fun name t line _ =>
        of_level (.addType name t line) (Exec.addType_locals name t line) }
  exact declarations.prepareAll ((Fragment.making_full _).declaresAll body)

end Layers

namespace Exec

/-- The step leaves the scopes steady and follows both orders. -/
abbrev Layered (Y : Layers) (Q : α → Prop) (x : Exec α) : Prop := Along Y.steadily Q x

/-- In a scope that has just been opened, the step leaves the scopes steady, and it follows the
first order, and both orders if `d` says so. -/
structure Inward (Y : Layers) (d : Prop) (x : Exec α) : Prop where
  steady {s : State} : Y.From s → s.Opened →
    x.Ends s (fun _ t => s.Steady (fun _ => False) t) fun _ t => s.Steady (fun _ => False) t
  outer : Along Y (fun _ => True) x
  both : d → Along Y.both (fun _ => True) x

namespace Layered

variable {Y : Layers} {P Q : α → Prop} {x : Exec α}

/-- A framed step that follows both orders. -/
theorem of_framed (framed : FramedAlways .outOfFuel (fun _ => False) P x x)
    (along : Along Y.both Q x) : Layered Y Q x := fun s hs =>
  ((along s hs).and (framed.steady s trivial)).mono
    (fun _ _ h => ⟨h.1.1, h.1.2, h.2.2⟩) fun _ _ h => h

/-- A step in scopes of its own, which are gone when it ends. -/
theorem of_finished (outer : Along Y Q x)
    (back : ∀ s, Y.From s →
      x.Ends s (fun _ t => True ∧ s.Steady (fun _ => False) t ∧ t.locals = s.locals)
        fun _ t => s.Steady (fun _ => False) t ∧ t.locals = s.locals) : Layered Y Q x := fun s hs =>
  ((outer s hs).and (back s hs)).mono
    (fun _ _ h => ⟨h.1.1, ⟨h.1.2, Y.level h.1.2 h.2.2.2⟩, h.2.2.1⟩)
    fun _ _ h => ⟨⟨h.1, Y.level h.1 h.2.2⟩, h.2.1⟩

theorem both (h : Layered Y Q x) : Along Y.both Q x := fun s hs =>
  (h s hs).mono (fun _ _ h => ⟨h.1, h.2.1⟩) fun _ _ h => h.1

theorem inward (h : Layered Y (fun _ => True) x) (d : Prop) : Inward Y d x where
  steady hs _ := (h _ hs).mono (fun _ _ h => h.2.2) fun _ _ h => h.2
  outer := Layers.outer h.both
  both _ := h.both

/-- Declarations, and then a step. -/
theorem prepared {x : Exec Unit} (d : Prop) (body : List Stmt) (h : Layered Y (fun _ => True) x) :
    Inward Y d (prepareAll body >>= fun _ => x) where
  steady hs ho := by
    have outer := Layers.outer (Layers.prepareAll (Y := Y) body)
    refine Ends.bind (((prepareAll_ends body (.inr ho)).and (outer _ hs)).mono (fun _ _ h => h)
      fun _ _ h => h.1.steady.mono fun _ _ => ho) ?_
    rintro _ t ⟨declared, -, le⟩
    have begun : State.Steady (fun _ => False) _ t := declared.steady.mono fun _ _ => ho
    exact (h t (Y.keeps hs le)).mono (fun _ _ h => begun.trans h.2.2) fun _ _ h => begun.trans h.2
  outer := .prepared body (Layers.outer h.both)
  both _ := (Layers.prepareAll body).after fun _ => h.both

theorem loopParts : LoopParts (fun x _ => Layered Y (fun _ => True) x)
    fun x _ => Layered Y (fun _ => True) x :=
  Along.loopParts

end Layered

namespace Inward

variable {Y : Layers} {d : Prop}

/-- What is known of the scopes where the step ends, if it is begun in the given state. -/
theorem framed {x : Exec α} (h : Inward Y d x) {s : State} (hs : Y.From s) (ho : s.Opened) :
    Framed .outOfFuel (fun _ => False) (· = s) (fun _ => True) x x :=
  .self fun _ same => same ▸ (h.steady hs ho).mono (fun _ _ h => ⟨trivial, h⟩) fun _ _ h => h

theorem takeResult {x : Exec Unit} (h : Inward Y d x) : Inward Y d (takeResult x) where
  steady {s} hs ho := by
    let c := s.store.alloc .undefined
    let u : State := { s with store := c.2, returns := c.1 :: s.returns }
    have hu : Y.From u := Y.keeps hs (Y.shared ⟨rfl, rfl, by simp [u, c, Store.alloc]⟩)
    have begun : s.Steady (fun _ => False) u := .of_eq rfl rfl rfl
    change ((x >>= fun _ => Exec.clear .ofReturn >>= fun _ => popReturn) : Exec Cell).Ends u _ _
    refine Ends.bind ((h.steady hu (ho.congr rfl)).mono (fun _ _ h => h) fun _ _ h => begun.trans h)
      fun _ t ht => ?_
    have cleared : s.Steady (fun _ => False) (t.clear .ofReturn) :=
      (begun.trans ht).trans (.of_eq rfl rfl rfl)
    have rest : FramedAlways .outOfFuel (fun _ => False) (fun _ => True) popReturn popReturn :=
      .popReturn
    exact (rest.steady (t.clear .ofReturn) trivial).mono (fun _ _ h => cleared.trans h.2)
      fun _ _ h => cleared.trans h
  outer := h.outer.takeResult
  both hd := (h.both hd).takeResult

theorem inBlock {x : Exec Unit} (h : Inward Y d x) : Layered Y (fun _ => True) (inBlock x) :=
  .of_finished h.outer.inBlock fun s hs =>
    have hu : Y.From (s.pushBlockScope .empty) := Y.keeps hs (Y.shared (.of_eq rfl rfl))
    ((h.framed hu s.opened_block).inBlock_finished rfl).1

theorem inRealization {x : Exec Unit} (h : Inward Y d x) (obj : Cell) {members : Scope}
    (hm : members.globalNames = []) : Layered Y (fun _ => True) (inRealization obj members x) :=
  .of_finished (h.outer.inRealization obj members) fun s hs =>
    have hu : Y.From (s.realizing obj members) := Y.keeps hs (Y.shared (.of_eq rfl rfl))
    ((h.framed hu (s.opened_realizing obj hm)).inRealization_finished rfl).1

theorem activate {x : Exec Cell} (h : Inward Y d x) {scope : Scope} {members : Option Scope}
    (hs : scope.globalNames = []) (hm : ∀ m ∈ members, m.globalNames = []) (line : Option Nat) :
    Layered Y (fun _ => True) (activate scope members line x) :=
  .of_finished (h.outer.activate scope members line) fun s hs' =>
    have hu : Y.From (s.entered scope members) :=
      Y.keeps hs' (Y.shared (by cases members <;> exact .of_eq rfl rfl))
    ((h.framed hu (s.opened_entered hs hm)).activate_finished rfl rfl).1

end Inward

namespace Layered

variable {Y : Layers}

theorem inCall {d : Prop} {x : Exec Cell} (h : Inward Y d x) (parameters : List String)
    (owner : Option ObjectRef) (args : List Cell) (line : Option Nat) :
    Layered Y (fun _ => True) (inCall parameters owner args line x) :=
  (Along.ownerScope owner).bind fun _ hm => (Along.argumentScope parameters args line).bind
    fun _ hs => h.activate hs hm line

/-- Filling an object that may be given any members. -/
theorem fillObject (hp : Y.toObjectOrder.Promotes) {d : Prop} {x : Exec Unit} (h : Inward Y d x)
    (obj : Cell) {r : ObjectRef} (hr : Y.Made r) :
    Layered Y (fun _ => True) (fillObject obj r x) := by
  have steadily : Y.steadily.Promotes := fun s r name c hr =>
    ⟨⟨hp s name c hr, Y.level (hp s name c hr) rfl⟩, .of_eq rfl rfl rfl⟩
  exact (Along.memberScope r).bind fun members hm => (h.inRealization obj hm).after fun bound =>
    (Along.promote steadily hr bound.entries).after fun _ => Along.bindParent hr

end Layered

end Exec

/-! ## The logic -/

open Exec (Layered Inward)

namespace Layers

variable (Y : Layers) {d : Prop}

/-- Following both orders is a logic of programs, if it is kept by names that are declared as global
and by realizations. -/
def logic (declareGlobal : d → ∀ name : String,
      Layered Y (fun _ => True) (modify (·.declareGlobal name)))
    (fillObject : ∀ {x : Exec Unit} (obj : Cell) (r : ObjectRef), Y.Made r → Inward Y d x →
      Layered Y (fun _ => True) (Exec.fillObject obj r x)) : NodeLogic (.declaring d) where
  toCellLogic :=
    Y.steadily.cells fun c => Layered.of_framed (.addAnonymous c) (Layers.addAnonymous c)
  Fresh _ _ x _ := Inward Y d x
  Made := Y.Made
  jumps _ h := h
  evaluateName name use line _ :=
    Layered.of_framed (outlasting.evaluateName name use line fun _ => id)
      (Layers.evaluateName name use line)
  fresh h := Layered.inward h d
  prepared {_ body _ _} _ h := Layered.prepared d body h
  takeResult := Inward.takeResult
  inBlock := Inward.inBlock
  makeObject t _ := Along.makeObject t
  evaluateMember := Along.evaluateMember
  fillObject obj r := fillObject obj r
  declareGlobal name h := declareGlobal h name
  loopBefore {_ e _ y _ v} limit _ hc hb hn :=
    Layered.loopParts.loopBefore (d := e) (y := y) (v := v) limit hc hb hn
  loopAfter {_ e _ y} limit _ hc hb := Layered.loopParts.loopAfter (d := e) (y := y) limit hc hb

end Layers

end CellScript
