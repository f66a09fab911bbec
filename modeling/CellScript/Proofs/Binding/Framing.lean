import CellScript.Proofs.Binding.Steady

/-!
# The logic of steady scopes

Names are made by assignments to names that are not found, by hoisted functions, by parameters and
members in the scopes of calls and realizations, and nowhere else. This module goes through them and
through all that opens a scope.

* `State.makesGlobal`: where a new name is bound in a global scope;
* `Exec.evaluateName_ends`, `Exec.prepareAll_ends`: what assignments and declarations may bind;
* `Exec.Framed.inBlock_finished`: a block leaves the local scopes exactly as they were;
* `framing gaveUp spared`: being framed is a logic of all programs that do not make a spared name by
  assigning to it.
-/

namespace CellScript

namespace Exec

variable {spared : String → Prop}

/-! ## Names -/

/-- A name that the innermost local scope does not bind can be bound there. -/
theorem steady_addLocal {s : State} {top : Frame} {below : List Frame}
    (hl : s.locals = top :: below) {name : String} (h : top.scope.items.find? name = none)
    (c : Cell) : s.Steady spared (s.mapTop (·.add name c)) := by
  refine State.steady_mapTop fun top' below' hl' => ?_
  rw [hl] at hl'
  cases hl'
  exact Scope.extends_add h c

/-- A new global name is bound in the top global scope. -/
theorem addGlobal_ends {s : State} {name : String} (hname : ¬ spared name) (c : Cell)
    (line : Option Nat) :
    (addGlobal name c line).Ends s (fun _ t => s.Steady spared t) fun _ t => t = s := by
  refine .addGlobal (fun top below hg missing => ?_) fun _ _ => rfl
  have free : top.items.find? name = none := by
    simp only [State.findGlobal?, hg, State.findGlobalIn] at missing
    cases hf : top.items.find? name with
    | none => rfl
    | some c => simp [hf] at missing
  refine State.steady_mapGlobal hg (Scope.extends_add free c) fun n hn bound => ?_
  have other : name ≠ n := fun same => hname (same ▸ hn)
  simpa [Scope.has, Bindings.contains, Scope.add, Bindings.find?_insert, other] using bound

end Exec

/-- Whether a new name is bound in a global scope: if there is no local scope, or if the current
call declares the name as global. -/
def State.makesGlobal (s : State) (name : String) : Bool :=
  s.locals.isEmpty || s.isDeclaredGlobal name

theorem State.findLocal?_eq_none {s : State} {name : String} (h : s.find? name = none) :
    s.findLocal? name = none := by
  unfold State.find? at h
  cases hf : s.findLocal? name with
  | none => rfl
  | some c => simp [hf] at h

namespace Exec

variable {spared : String → Prop}

/-- A name that is not found is made without harm. -/
theorem addName_ends {s : State} {name : String} (h : s.find? name = none)
    (hname : spared name → s.makesGlobal name = false) (c : Cell) (line : Option Nat) :
    (addName name c line).Ends s (fun _ t => s.Steady spared t) fun _ t => t = s := by
  have missing := State.findLocal?_eq_none h
  refine .addName (fun nonempty undeclared => ?_) fun atGlobal => ?_
  · obtain ⟨top, below, hl⟩ := List.exists_cons_of_ne_nil nonempty
    have bare : top.scope.globalNames.contains name = false := by
      simp only [State.isDeclaredGlobal, State.chain, hl, State.chainOf, Scope.declaredGlobal,
        List.any_cons, Bool.or_eq_false_iff] at undeclared
      exact undeclared.1
    have free : top.scope.items.find? name = none := by
      simp only [State.findLocal?, State.chain, hl, State.chainOf] at missing
      exact Scope.find?_eq_none_of_findIn bare missing
    exact .addLocal (fun _ => steady_addLocal hl free c) fun empty => absurd empty nonempty
  · refine addGlobal_ends (fun hs => ?_) c line
    exact absurd atGlobal (by simpa [State.makesGlobal] using hname hs)

theorem newName_ends {s : State} {name : String} (h : s.find? name = none)
    (hname : spared name → s.makesGlobal name = false) (line : Option Nat) :
    (newName name line).Ends s (fun _ t => s.Steady spared t) fun _ t => s.Steady spared t := by
  let u : State := { s with store := (s.store.alloc .undefined).2 }
  have begun : s.Steady spared u := .of_eq rfl rfl rfl
  have named := addName_ends (s := u) h hname (s.store.alloc .undefined).1 line
  refine .newName (named.mono (fun _ _ ht => begun.trans ht) ?_)
  rintro f t rfl
  exact begun

/-- A name that is found is evaluated to its cell. -/
theorem evaluateName_of_some {s : State} {name : String} {c : Cell} (h : s.find? name = some c)
    (use : Use) (line : Nat) : evaluateName name use line s = .ok c s := by
  unfold evaluateName
  rw [find?_bind_apply, h]
  rfl

theorem evaluateName_of_none {s : State} {name : String} (h : s.find? name = none) (use : Use)
    (line : Nat) : evaluateName name use line s =
      match use with
      | .operand => .error (.script (.unknownIdentifier name) (some line)) s
      | .location => newName name (some line) s := by
  unfold evaluateName
  rw [find?_bind_apply, h]
  cases use <;> rfl

/-- A name is evaluated without harm, and it is made in a global scope only where it may be. -/
theorem evaluateName_ends (name : String) (use : Use) (line : Nat) {s : State}
    (hname : use = .location → s.find? name = none → spared name → s.makesGlobal name = false) :
    (evaluateName name use line).Ends s (fun _ t => s.Steady spared t)
      fun _ t => s.Steady spared t := by
  refine .evaluateName (fun _ _ => .refl s) (fun _ => .refl s) fun hu hf => ?_
  exact newName_ends hf (hname hu hf) (some line)

end Exec

/-! ## Declarations -/

/-- What declarations lead to. Where a local scope has just been opened, no global name is made. -/
structure State.Declared (s t : State) : Prop where
  steady : s.Steady (fun _ => s.Opened) t
  opened : s.Opened → t.Opened

/-- There is no local scope, or the innermost one declares no names as global. -/
def State.Bare (s : State) : Prop := s.locals = [] ∨ s.Opened

namespace State

variable {s t u : State}

theorem Declared.refl (s : State) : s.Declared s := ⟨.refl s, id⟩

theorem Declared.trans (h : s.Declared t) (h' : t.Declared u) : s.Declared u :=
  ⟨h.steady.trans (h'.steady.mono fun _ => h.opened), h'.opened ∘ h.opened⟩

theorem Declared.bare (h : s.Declared t) (hs : s.Bare) : t.Bare := by
  rcases hs with hs | hs
  · have height := h.steady.locals.length_eq
    rw [hs] at height
    exact .inl (List.eq_nil_of_length_eq_zero height)
  · exact .inr (h.opened hs)

end State

namespace Exec

theorem declareFunction_ends (f : FunctionDef Stmt) {s : State} (hs : s.Bare) :
    (declareFunction f).Ends s (fun _ t => s.Declared t) fun _ t => s.Declared t := by
  let u : State := { s with store := (s.store.alloc f.toValue).2 }
  have begun : s.Steady (fun _ => s.Opened) u := .of_eq rfl rfl rfl
  refine .declareFunction (fun _ _ _ _ _ _ => .refl s) (.refl s) (fun _ hl => ?_)
    fun missing nonempty => ?_
  · have never : ¬ s.Opened := fun h => h.ne_nil hl
    have made : (addGlobal f.name (s.store.alloc f.toValue).1 (some f.line)).Ends u
        (fun _ t => u.Steady (fun _ => s.Opened) t) fun _ t => t = u :=
      addGlobal_ends never _ _
    refine made.mono (fun _ t ht => ⟨begun.trans ht, fun h => absurd h never⟩) ?_
    rintro _ t rfl
    exact ⟨begun, fun h => absurd h never⟩
  · obtain ⟨top, below, hl, hnone⟩ := hs.resolve_left nonempty
    have free : top.scope.items.find? f.name = none := by
      have absent := State.findLocal?_eq_none missing
      simp only [State.findLocal?, State.chain, hl, State.chainOf] at absent
      exact Scope.find?_eq_none_of_findIn (by simp [hnone]) absent
    have hu : u.locals = top :: below := hl
    refine .addLocal (fun _ => ⟨begun.trans (steady_addLocal hu free _), fun _ => ?_⟩)
      fun empty => absurd empty nonempty
    refine ⟨{ top with scope := top.scope.add f.name (s.store.alloc f.toValue).1 }, below, ?_,
      hnone⟩
    simp [State.mapTop, hl]

theorem addType_ends (name : String) (t : ObjectType) (line : Option Nat) (s : State) :
    (addType name t line).Ends s (fun _ t => s.Declared t) fun _ t => s.Declared t := by
  refine .addType (fun _ _ _ => .refl s) (fun top below hg missing => ?_) (.refl s) fun _ => .refl s
  have free : top.types.find? name = none := by
    simp only [State.findType?, hg, State.findTypeIn] at missing
    cases hn : top.types.find? name with
    | none => rfl
    | some c => simp [hn] at missing
  have extended : top.Extends { top with types := top.types.insert name t } :=
    ⟨.refl _, fun _ h => h, .insert free t⟩
  exact ⟨State.steady_mapGlobal hg extended fun _ _ h => h, fun h => h.congr rfl⟩

theorem prepareAll_ends (ss : List Stmt) {s : State} (hs : s.Bare) :
    (prepareAll ss).Ends s (fun _ t => s.Declared t) fun _ t => s.Declared t := by
  have declarations : (Fragment.making fun _ => True).Declarations fun x _ => ∀ s, s.Bare →
      x.Ends s (fun _ t => s.Declared t) fun _ t => s.Declared t :=
    { pure := fun s _ => .refl s
      bind := fun hx hy s hs => Ends.bind (hx s hs) fun _ t ht =>
        (hy t (ht.bare hs)).mono (fun _ _ hu => ht.trans hu) fun _ _ hu => ht.trans hu
      declareFunction := fun f _ _ => declareFunction_ends f
      addType := fun name t line _ s _ => addType_ends name t line s }
  exact declarations.prepareAll ((Fragment.making_full _).declaresAll ss) s hs

end Exec

/-! ## Steps around steps -/

namespace State

/-- The state in which the body of a realization is begun. -/
def realizing (s : State) (obj : Cell) (members : Scope) : State :=
  { s.pushFunctionScope members with instants := obj :: s.instants }

theorem opened_block (s : State) : (s.pushBlockScope .empty).Opened := ⟨_, _, rfl, rfl⟩

theorem opened_realizing (s : State) (obj : Cell) {members : Scope}
    (h : members.globalNames = []) : (s.realizing obj members).Opened :=
  ⟨_, _, rfl, h⟩

theorem opened_entered (s : State) {scope : Scope} {members : Option Scope}
    (hs : scope.globalNames = []) (hm : ∀ m ∈ members, m.globalNames = []) :
    (s.entered scope members).Opened := by
  cases members with
  | none => exact ⟨_, _, rfl, hs⟩
  | some m => exact ⟨_, _, rfl, hm m rfl⟩

end State

namespace Exec

section

variable {s : State}

theorem inBlock_congr {x y : Exec Unit}
    (h : x (s.pushBlockScope .empty) = y (s.pushBlockScope .empty)) :
    inBlock x s = inBlock y s :=
  ensuring_congr h popLocalScope

theorem inRealization_congr {x y : Exec Unit} {obj : Cell} {members : Scope}
    (h : x (s.realizing obj members) = y (s.realizing obj members)) :
    inRealization obj members x s = inRealization obj members y s :=
  ensuring_congr (bind_congr_left h fun _ => innermostNames) _

theorem activate_congr {x y : Exec Cell} {scope : Scope} {members : Option Scope}
    {line : Option Nat} (h : x (s.entered scope members) = y (s.entered scope members)) :
    activate scope members line x s = activate scope members line y s := by
  rcases Int.lt_or_le s.callDepth s.maxCallDepth with hlt | hle
  · rw [activate_of_lt hlt, activate_of_lt hlt]
    exact ensuring_congr (mapFailure_congr h _) _
  · rw [activate_of_le hle, activate_of_le hle]

end

namespace Framed

variable {gaveUp : Failure} {spared : String → Prop} {I : State → Prop}

/-- The scope of a block is gone when the block ends, and the others are as they were. -/
theorem inBlock_finished {x y : Exec Unit} (h : Framed gaveUp spared I (fun _ => True) x y)
    {s : State} (hu : I (s.pushBlockScope .empty)) :
    (inBlock x).Ends s (fun _ t => True ∧ s.Steady spared t ∧ t.locals = s.locals)
        (fun _ t => s.Steady spared t ∧ t.locals = s.locals) ∧
      (failure? (inBlock x s) = some gaveUp ∨ inBlock x s = inBlock y s) := by
  refine h.finished hu rfl fun t ht => ?_
  obtain ⟨g, hl, -⟩ := ht.locals.of_cons
  exact ⟨_, popLocalScope_of_cons hl, rfl, rfl, ht.instants⟩

theorem inBlock {x y : Exec Unit} (h : Framed gaveUp spared State.Opened (fun _ => True) x y) :
    Framed gaveUp spared I (fun _ => True) (inBlock x) (inBlock y) :=
  ⟨fun s _ => (h.inBlock_finished s.opened_block).1.mono (fun _ _ h => ⟨trivial, h.2.1⟩)
    fun _ _ h => h.1, fun s _ => (h.inBlock_finished s.opened_block).2⟩

/-- The scope of a realization is gone when it ends, and the others are as they were. -/
theorem inRealization_finished {x y : Exec Unit} (h : Framed gaveUp spared I (fun _ => True) x y)
    {obj : Cell} {members : Scope} {s : State} (hu : I (s.realizing obj members)) :
    (inRealization obj members x).Ends s
        (fun _ t => True ∧ s.Steady spared t ∧ t.locals = s.locals)
        (fun _ t => s.Steady spared t ∧ t.locals = s.locals) ∧
      (failure? (inRealization obj members x s) = some gaveUp ∨
        inRealization obj members x s = inRealization obj members y s) := by
  have names : FramedAlways gaveUp spared (fun _ => True) innermostNames innermostNames := by
    refine of_scopes fun s => ?_
    unfold innermostNames
    rw [ends_get_bind]
    split
    · exact ⟨trivial, rfl, rfl, rfl⟩
    · exact ⟨trivial, rfl, rfl, rfl⟩
  have back (t : State) (ht : (s.realizing obj members).Steady spared t) :
      ∃ v, (popInstant >>= fun _ => popLocalScope) t = .ok () v ∧ v.locals = s.locals ∧
        v.globals = t.globals ∧ v.instants = s.instants := by
    obtain ⟨g, hl, -⟩ := ht.locals.of_cons
    refine ⟨{ t with locals := s.locals, instants := s.instants }, ?_, rfl, rfl, rfl⟩
    change EStateM.bind _ _ t = _
    rw [EStateM.bind, popInstant_of_cons ht.instants]
    exact popLocalScope_of_cons hl
  exact (h.bind fun _ _ => names).finished hu rfl back

theorem inRealization {x y : Exec Unit}
    (h : Framed gaveUp spared State.Opened (fun _ => True) x y) (obj : Cell) {members : Scope}
    (hm : members.globalNames = []) :
    Framed gaveUp spared I (fun _ => True) (inRealization obj members x)
      (inRealization obj members y) :=
  ⟨fun s _ => (h.inRealization_finished (s.opened_realizing obj hm)).1.mono
    (fun _ _ h => ⟨trivial, h.2.1⟩) fun _ _ h => h.1,
    fun s _ => (h.inRealization_finished (s.opened_realizing obj hm)).2⟩

/-- The scopes of a call are gone when it ends, and the others are as they were. -/
theorem activate_finished {x y : Exec Cell} (h : Framed gaveUp spared I (fun _ => True) x y)
    {scope : Scope} {members : Option Scope} {line : Option Nat}
    (hg : overrun line gaveUp = gaveUp) {s : State} (hu : I (s.entered scope members)) :
    (activate scope members line x).Ends s
        (fun _ t => True ∧ s.Steady spared t ∧ t.locals = s.locals)
        (fun _ t => s.Steady spared t ∧ t.locals = s.locals) ∧
      (failure? (activate scope members line x s) = some gaveUp ∨
        activate scope members line x s = activate scope members line y s) := by
  have globals : (s.entered scope members).globals = s.globals := by
    cases members <;> rfl
  have back (t : State) (ht : (s.entered scope members).Steady spared t) :
      ∃ v, leaveCall s.locals.length t = .ok () v ∧ v.locals = s.locals ∧
        v.globals = t.globals ∧ v.instants = s.instants := by
    refine ⟨_, rfl, ?_, rfl, ht.instants.trans (by cases members <;> rfl)⟩
    change t.locals.drop (t.locals.length - s.locals.length) = s.locals
    cases members with
    | none =>
      obtain ⟨g, hl, -⟩ := ht.locals.of_cons
      simp [hl]
    | some m =>
      obtain ⟨g, hl, -⟩ := ht.locals.of_cons
      have two : s.locals.length + 1 + 1 - s.locals.length = 2 := by omega
      simp [hl, State.pushFunctionScope, two]
  have run := (h.mapFailure hg).finished hu globals back
  unfold Ends
  rcases Int.lt_or_le s.callDepth s.maxCallDepth with hlt | hle
  · rw [activate_of_lt hlt, activate_of_lt hlt]
    exact run
  · rw [activate_of_le hle, activate_of_le hle]
    exact ⟨⟨.refl s, rfl⟩, .inr rfl⟩

theorem activate {x y : Exec Cell} (h : Framed gaveUp spared State.Opened (fun _ => True) x y)
    {scope : Scope} {members : Option Scope} (hs : scope.globalNames = [])
    (hm : ∀ m ∈ members, m.globalNames = []) {line : Option Nat}
    (hg : overrun line gaveUp = gaveUp) :
    Framed gaveUp spared I (fun _ => True) (activate scope members line x)
      (activate scope members line y) :=
  ⟨fun s _ => (h.activate_finished hg (s.opened_entered hs hm)).1.mono
    (fun _ _ h => ⟨trivial, h.2.1⟩) fun _ _ h => h.1,
    fun s _ => (h.activate_finished hg (s.opened_entered hs hm)).2⟩

theorem takeResult {x y : Exec Unit} (h : Framed gaveUp spared State.Opened (fun _ => True) x y) :
    Framed gaveUp spared State.Opened (fun _ => True) (takeResult x) (takeResult y) := by
  have slot : Framed gaveUp spared State.Opened (fun _ => True) (newCell .undefined)
      (newCell .undefined) := allocate fun _ => trivial
  refine slot.bind_of (J := State.Opened) (fun s hs => hs.congr rfl) fun c _ => ?_
  have pushed : Framed gaveUp spared State.Opened (fun _ => True) (pushReturn c) (pushReturn c) :=
    update (fun _ => rfl) (fun _ => rfl) fun _ => rfl
  refine pushed.bind_of (J := State.Opened) (fun s hs => hs.congr rfl) fun _ _ => ?_
  refine h.bind fun _ _ => bind (P := fun _ => True) ?_ fun _ _ => popReturn
  exact update (fun _ => rfl) (fun _ => rfl) fun _ => rfl

/-! ## Loops and sequences -/

theorem loopParts : LoopParts (FramedAlways gaveUp spared fun _ => True)
    (FramedAlways gaveUp spared fun _ => True) where
  pure _ := pure trivial
  bind hx hf := hx.bind fun a _ => hf a
  outOfFuel := throw _
  clear _ := update (fun _ => rfl) (fun _ => rfl) fun _ => rfl
  loopExit := read fun _ => trivial
  whole h := bind (P := fun _ => True) (update (fun _ => rfl) (fun _ => rfl) fun _ => rfl)
    fun _ _ => h.bind fun _ _ => update (fun _ => rfl) (fun _ => rfl) fun _ => rfl

theorem runAll {f g : Stmt → Exec Unit}
    (h : ∀ st, FramedAlways gaveUp spared (fun _ => True) (f st) (g st)) (ss : List Stmt) :
    FramedAlways gaveUp spared (fun _ => True) (runAll f ss) (runAll g ss) := by
  induction ss with
  | nil => exact pure trivial
  | cons st ss ih =>
    refine (h st).bind fun _ _ => bind (P := fun _ => True) (read fun _ => trivial) fun s _ => ?_
    split
    · exact pure trivial
    · exact ih

end Framed

end Exec

/-! ## The logic -/

open Exec (Framed FramedAlways)

/-- A failure that everything on the way passes on as it is. -/
def Failure.PassedOn (f : Failure) : Prop :=
  ∀ line, f.located line = f ∧ Exec.overrun line f = f

/-- The names that may be made where some are spared. -/
abbrev Fragment.sparing (spared : String → Prop) : Fragment := .making fun name => ¬ spared name

/-- Being framed, whatever the storage holds. -/
def framingSteps {gaveUp : Failure} (hg : gaveUp.PassedOn) (spared : String → Prop) :
    StoreLogic (.sparing spared) where
  Rel _ _ Q x y := FramedAlways gaveUp spared Q x y
  pure := Framed.pure
  bind := Framed.bind
  mono _ hQ := Framed.mono (fun _ h => h) hQ
  throw f _ := Framed.throw f
  located line := Framed.mapFailure (hg line).1
  storage := Framed.read fun _ => trivial
  value _ := Framed.read fun _ => trivial
  allocate _ h := Framed.allocate fun s => (h s fun _ _ => trivial).1
  find? _ := Framed.read fun _ => trivial
  findType? _ := Framed.read fun _ _ _ => trivial
  instant? := Framed.read fun _ => trivial
  addAnonymous := Framed.addAnonymous
  print _ := Framed.update (fun _ => rfl) (fun _ => rfl) fun _ => rfl
  log _ _ _ := Framed.update (fun _ => rfl) (fun _ => rfl) fun _ => rfl
  randomBetween _ _ := Framed.of_scopes fun _ => ⟨trivial, rfl, rfl, rfl⟩
  raise _ := Framed.update (fun _ => rfl) (fun _ => rfl) fun _ => rfl
  setReturn := Framed.setReturn

/-- Being framed is a logic of all programs that do not make a spared name by assigning to it. -/
def framing {gaveUp : Failure} (hg : gaveUp.PassedOn) (spared : String → Prop) :
    ProgramLogic (.sparing spared) where
  toStepLogic := (framingSteps hg spared).steps fun name => Framed.self fun _ _ =>
    ⟨trivial, State.steady_mapTop fun top _ _ => top.scope.extends_declareGlobal name⟩
  Fresh _ _ x y := Framed gaveUp spared State.Opened (fun _ => True) x y
  jumps _ h := h
  evaluateName name use line h := Framed.self fun _ _ =>
    (Exec.evaluateName_ends name use line fun hu _ hs => absurd hs (h hu)).mono
      (fun _ _ ht => ⟨trivial, ht⟩) fun _ _ ht => ht
  fresh h := h.mono (fun _ _ => trivial) fun _ _ => trivial
  prepared {_ body _ _} _ h := by
    refine Framed.bind (P := fun _ => True) (Framed.self fun s hs => ?_) fun _ _ => h
    exact (Exec.prepareAll_ends body (.inr hs)).mono
      (fun _ _ ht => ⟨trivial, ht.steady.mono fun _ _ => hs⟩)
      fun _ _ ht => ht.steady.mono fun _ _ => hs
  takeResult := Framed.takeResult
  inBlock := Framed.inBlock
  fillObject obj r h :=
    (framingSteps hg spared).fillObject (l := .ofReturn) obj r fun _ hm => h.inRealization obj hm
  loopBefore limit _ := Framed.loopParts.loopBefore limit
  loopAfter limit _ := Framed.loopParts.loopAfter limit

/-! ## Interpreters -/

/-- The functions of a host leave the scopes steady. -/
def Host.Steady (spared : String → Prop) (host : Host) : Prop :=
  ∀ (name : String) (s : State), s.Steady spared (finalState (host name s))

section

variable {gaveUp : Failure} {hg : gaveUp.PassedOn} {spared : String → Prop} {p q : Interp}

theorem Host.Steady.framed {host : Host} (h : Host.Steady spared host) (name : String) :
    FramedAlways gaveUp spared (fun _ => True) (host name) (host name) :=
  Framed.self fun s _ =>
    (Exec.ends_of_final (h name s)).mono (fun _ _ ht => ⟨trivial, ht⟩) fun _ _ ht => ht

/-- Related interpreters make related calls. -/
theorem framed_invokeWith {host : Host} (hh : Host.Steady spared host)
    (h : (framing hg spared).AgreeOn .any p q) (f : Callable) (owner : Option ObjectRef)
    (args : List Cell) (line : Option Nat) :
    FramedAlways gaveUp spared (fun _ => True) (Exec.invokeWith host p f owner args line)
      (Exec.invokeWith host q f owner args line) := by
  refine (framingSteps hg spared).inCall _ owner args line fun scope members hs hm => ?_
  refine Framed.activate ?_ hs hm (hg line).2
  exact h.runCallable line trivial (fun name _ _ => hh.framed name) fun _ body _ _ =>
    ⟨(Fragment.making_full _).declaresAll body, fun _ _ => trivial⟩

theorem framed_fullText (h : ∀ frames c line, FramedAlways gaveUp spared (fun _ => True)
    (p.text frames c line) (q.text frames c line)) (c : Cell) (line : Option Nat) :
    FramedAlways gaveUp spared (fun _ => True) (Exec.fullText p c line)
      (Exec.fullText q c line) :=
  Framed.bind (P := fun _ => True) (Framed.read fun _ => trivial) fun k _ => h k c line

end

end CellScript
