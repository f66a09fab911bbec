import CellScript.Proofs.Blind
import CellScript.Proofs.Congruence.Free

/-!
# Steps with more room

The limit on calls is looked at where a call begins, and the frames of the machine, which grow with
it, where a text is asked for. A step that does not come up against either does the same under a
larger limit and with more frames.

The two runs are compared in states that differ in nothing but the limit and the frames
(`Overlay.room`). Of a step it has to be known that it leaves the stacks as high as they were: else
what finishes it might fail and hide that it ran out of room.

* `Exec.Fits`: where the first step does not run out of room, the second one does the same with more
  room;
* `fitting`: this is a logic of all programs.
-/

namespace CellScript

/-- A run out of room: too many calls, or texts nested too deeply. -/
def Failure.isOverrun : Failure → Bool
  | .exhausted => true
  | .script .callDepthExceeded _ => true
  | _ => false

theorem Failure.isOverrun_located (line : Option Nat) (f : Failure) :
    (f.located line).isOverrun = f.isOverrun := by
  cases f with
  | script cause l => cases l <;> cases cause <;> rfl
  | _ => rfl

/-- Another limit and other frames. -/
def Overlay.room (limit : Int) (frames : Nat) : Overlay := ⟨id, fun _ => limit, fun _ => frames⟩

/-- The stacks of the second state are as high as those of the first one, and there is as much
room. -/
structure State.AsHigh (s t : State) : Prop where
  locals : t.locals.length = s.locals.length
  instants : t.instants.length = s.instants.length
  maxCallDepth : t.maxCallDepth = s.maxCallDepth
  frames : t.frames = s.frames

namespace State

variable {s t u : State}

theorem AsHigh.refl (s : State) : s.AsHigh s := ⟨rfl, rfl, rfl, rfl⟩

theorem AsHigh.trans (h : s.AsHigh t) (h' : t.AsHigh u) : s.AsHigh u :=
  ⟨h'.locals.trans h.locals, h'.instants.trans h.instants, h'.maxCallDepth.trans h.maxCallDepth,
    h'.frames.trans h.frames⟩

theorem asHigh_mapTop (s : State) (f : Scope → Scope) : s.AsHigh (s.mapTop f) := by
  unfold mapTop
  split
  · exact .refl s
  · next top below hl => exact ⟨by simp [hl], rfl, rfl, rfl⟩

end State

namespace Exec

variable {α β : Type}

theorem isOverrun_overrun (line : Option Nat) (f : Failure) :
    (overrun line f).isOverrun = f.isOverrun := by
  cases f <;> rfl

/-- The step ran out of room. -/
def Overran (r : EStateM.Result Failure State α) : Prop :=
  ∃ f, failure? r = some f ∧ f.isOverrun = true

/-- The step leaves the stacks as high as they were. -/
def Leveled (Q : α → Prop) (x : Exec α) : Prop :=
  ∀ s : State, x.Ends s (fun a t => Q a ∧ s.AsHigh t) fun _ t => s.AsHigh t

/-- The first step leaves the stacks as high as they were. If it does not run out of room, then the
second one does the same with more room. -/
structure Fits (Q : α → Prop) (x y : Exec α) : Prop where
  level : Leveled Q x
  same (s : State) (limit : Int) (frames : Nat) : s.maxCallDepth ≤ limit → s.frames ≤ frames →
    Overran (x s) ∨ y (s.overlay (.room limit frames)) = overlaid (.room limit frames) (x s)

namespace Leveled

variable {P Q : α → Prop}

theorem pure {a : α} (h : Q a) : Leveled Q (pure a) := fun s => ⟨h, .refl s⟩

theorem throw (f : Failure) : Leveled Q (throw f : Exec α) := fun s => .refl s

theorem bind {R : β → Prop} {x : Exec α} {f : α → Exec β} (hx : Leveled P x)
    (hf : ∀ a, P a → Leveled R (f a)) : Leveled R (x >>= f) := by
  refine fun s => Ends.bind (hx s) fun a t ⟨ha, ht⟩ => ?_
  exact (hf a ha t).mono (fun _ _ ⟨hb, hu⟩ => ⟨hb, ht.trans hu⟩) fun _ _ hu => ht.trans hu

/-- Steps that depend on the state. -/
theorem choose {f : State → Exec α} (h : ∀ s, Leveled Q (f s)) : Leveled Q (get >>= f) :=
  fun s => h s s

theorem update {f : State → State} (h : ∀ s : State, s.AsHigh (f s)) :
    Leveled (fun _ => True) (modify f) := fun s => ⟨trivial, h s⟩

theorem addGlobal (name : String) (c : Cell) (line : Option Nat) :
    Leveled (fun _ => True) (addGlobal name c line) := fun s =>
  .addGlobal (fun _ _ _ _ => ⟨trivial, rfl, rfl, rfl, rfl⟩) fun _ _ => .refl s

theorem addLocal (name : String) (c : Cell) : Leveled (fun _ => True) (addLocal name c) := fun s =>
  .addLocal (fun _ => ⟨trivial, s.asHigh_mapTop _⟩) fun _ => .refl s

theorem addType (name : String) (t : ObjectType) (line : Option Nat) :
    Leveled (fun _ => True) (addType name t line) := by
  intro s
  refine .addType (fun old _ _ => ?_) (fun top below _ _ => ?_) (.refl s) fun _ => .refl s
  · exact ⟨trivial, .refl s⟩
  · exact ⟨trivial, rfl, rfl, rfl, rfl⟩

theorem addAnonymous (c : Cell) : Leveled (fun _ => True) (addAnonymous c) := by
  intro s
  refine .addAnonymous (fun _ => ?_) (fun top below _ => ?_) fun _ => .refl s
  · exact ⟨trivial, s.asHigh_mapTop _⟩
  · exact ⟨trivial, rfl, rfl, rfl, rfl⟩

theorem setReturn (c : Cell) (line : Option Nat) :
    Leveled (fun _ => True) (setReturn c line) := fun s =>
  .setReturn (fun _ _ _ => ⟨trivial, rfl, rfl, rfl, rfl⟩) fun _ => .refl s

theorem popReturn : Leveled (fun _ => True) popReturn := fun s =>
  .popReturn (fun _ _ _ => ⟨trivial, rfl, rfl, rfl, rfl⟩) fun _ => .refl s

end Leveled

namespace Fits

variable {P Q : α → Prop}

/-! ## Sequences and failures -/

/-- A step that does not look at the room. -/
theorem of_blind {x : Exec α} (hb : Blind Overlay.OfRoom x) (hl : Leveled Q x) : Fits Q x x :=
  ⟨hl, fun s limit frames _ _ => .inr (hb (.room limit frames) rfl s)⟩

theorem pure {a : α} (h : Q a) : Fits Q (pure a) (pure a) := of_blind (.pure a) (.pure h)

theorem throw (f : Failure) : Fits Q (throw f : Exec α) (throw f) := of_blind (.throw f) (.throw f)

theorem fail (cause : Cause) (line : Option Nat) :
    Fits Q (fail cause line : Exec α) (fail cause line) := throw _

/-- Where the first step runs out of room, nothing is said of the second one. -/
theorem overran {f : Failure} (hf : f.isOverrun = true) (y : Exec α) :
    Fits Q (MonadExcept.throw f) y :=
  ⟨.throw f, fun _ _ _ _ _ => .inl ⟨f, rfl, hf⟩⟩

theorem bind {R : β → Prop} {x y : Exec α} {f g : α → Exec β} (hx : Fits P x y)
    (hf : ∀ a, P a → Fits R (f a) (g a)) : Fits R (x >>= f) (y >>= g) := by
  refine ⟨hx.level.bind fun a ha => (hf a ha).level, fun s limit frames hl hn => ?_⟩
  have level := hx.level s
  change Overran (EStateM.bind x f s) ∨ EStateM.bind y g _ = overlaid _ (EStateM.bind x f s)
  unfold EStateM.bind
  rcases hx.same s limit frames hl hn with ⟨e, he, hover⟩ | same
  · cases h : x s with
    | ok a t => simp [h, failure?] at he
    | error e' t =>
      rw [h] at he
      exact .inl ⟨e, he, hover⟩
  · rw [same]
    cases h : x s with
    | ok a t =>
      obtain ⟨ha, ht⟩ := level.ok h
      exact (hf a ha).same t limit frames (ht.maxCallDepth ▸ hl) (ht.frames ▸ hn)
    | error e t => exact .inr rfl

theorem mono {x y : Exec α} (hQ : ∀ a, P a → Q a) (h : Fits P x y) : Fits Q x y :=
  ⟨fun s => (h.level s).mono (fun a _ ⟨ha, ht⟩ => ⟨hQ a ha, ht⟩) fun _ _ h => h, h.same⟩

theorem mapFailure {x y : Exec α} {g : Failure → Failure}
    (hg : ∀ f, (g f).isOverrun = f.isOverrun) (h : Fits Q x y) :
    Fits Q (mapFailure g x) (mapFailure g y) := by
  refine ⟨fun s => Ends.mapFailure (h.level s), fun s limit frames hl hn => ?_⟩
  unfold Exec.mapFailure
  rcases h.same s limit frames hl hn with ⟨e, he, hover⟩ | same
  · cases hx : x s with
    | ok a t => simp [hx, failure?] at he
    | error e' t =>
      rw [hx] at he
      cases he
      exact .inl ⟨g e, rfl, (hg e).trans hover⟩
  · rw [same]
    cases hx : x s with
    | ok a t => exact .inr rfl
    | error e t => exact .inr rfl

theorem overrun {x y : Exec α} (line : Option Nat) (h : Fits Q x y) :
    Fits Q (Exec.mapFailure (Exec.overrun line) x) (Exec.mapFailure (Exec.overrun line) y) :=
  h.mapFailure (isOverrun_overrun line)

/-- Steps that depend on the state, but not on the room. -/
theorem choose {f g : State → Exec α} (h : ∀ s, Fits Q (f s) (g s))
    (hg : ∀ s limit frames, g (s.overlay (.room limit frames)) = g s) :
    Fits Q (get >>= f) (get >>= g) := by
  refine ⟨.choose fun s => (h s).level, fun s limit frames hl hn => ?_⟩
  have same := (h s).same s limit frames hl hn
  rw [← hg s limit frames] at same
  exact same

/-- A change of the state that has nothing to do with the room. -/
theorem update {f : State → State} (hl : ∀ s : State, s.AsHigh (f s))
    (hf : ∀ s limit frames,
      f (s.overlay (.room limit frames)) = (f s).overlay (.room limit frames)) :
    Fits (fun _ => True) (modify f) (modify f) := by
  refine ⟨.update hl, fun s limit frames _ _ => .inr ?_⟩
  change EStateM.Result.ok () (f (s.overlay _)) = .ok () ((f s).overlay _)
  rw [hf]

theorem read {f : State → α} (h : ∀ s, Q (f s))
    (hf : ∀ s limit frames, f (s.overlay (.room limit frames)) = f s) :
    Fits Q (do return f (← get)) (do return f (← get)) :=
  choose (fun s => pure (h s)) fun s limit frames => by rw [hf]

/-! ## Steps around steps -/

/-- A step begun in `u` and a finisher that leads back to the level of `s`. -/
theorem finished {x y : Exec α} (h : Fits Q x y) {finish : Exec Unit}
    (hb : Blind Overlay.OfRoom finish) {s u : State}
    (back : ∀ t, u.AsHigh t → ∃ v, finish t = .ok () v ∧ s.AsHigh v) :
    (ensuring x finish).Ends u (fun a t => Q a ∧ s.AsHigh t) (fun _ t => s.AsHigh t) ∧
      ∀ (limit : Int) (frames : Nat), u.maxCallDepth ≤ limit → u.frames ≤ frames →
        Overran (ensuring x finish u) ∨
          ensuring y finish (u.overlay (.room limit frames)) =
            overlaid (.room limit frames) (ensuring x finish u) := by
  refine ⟨Ends.ensuring ((h.level u).mono ?_ ?_), fun limit frames hl hn => ?_⟩
  · rintro a t ⟨ha, ht⟩
    obtain ⟨v, hv, level⟩ := back t ht
    unfold Ends
    rw [hv]
    exact ⟨ha, level⟩
  · rintro f t ht
    obtain ⟨v, hv, level⟩ := back t ht
    unfold Ends
    rw [hv]
    exact level
  · have level := h.level u
    have finishing (t : State) := hb (.room limit frames) rfl t
    unfold Exec.ensuring
    rcases h.same u limit frames hl hn with ⟨e, he, hover⟩ | same
    · cases hx : x u with
      | ok a t => simp [hx, failure?] at he
      | error e' t =>
        obtain ⟨v, hv, -⟩ := back t (level.error hx)
        rw [hx] at he
        refine .inl ⟨e, ?_, hover⟩
        simp only [hv]
        exact he
    · rw [same]
      cases hx : x u with
      | ok a t =>
        obtain ⟨v, hv, -⟩ := back t (level.ok hx).2
        simp only [overlaid, finishing, hv]
        exact .inr trivial
      | error e t =>
        obtain ⟨v, hv, -⟩ := back t (level.error hx)
        simp only [overlaid, finishing, hv]
        exact .inr trivial

theorem inBlock {x y : Exec Unit} (h : Fits (fun _ => True) x y) :
    Fits (fun _ => True) (inBlock x) (inBlock y) := by
  have back (s t : State) (ht : (s.pushBlockScope .empty).AsHigh t) :
      ∃ v, popLocalScope t = .ok () v ∧ s.AsHigh v := by
    have height : t.locals.length = s.locals.length + 1 := ht.locals
    cases hl : t.locals with
    | nil => simp [hl] at height
    | cons top below =>
      refine ⟨{ t with locals := below }, ?_, ?_, ht.instants, ht.maxCallDepth, ht.frames⟩
      · exact popLocalScope_of_cons hl
      · simpa [hl] using height
  exact ⟨fun s => (h.finished Blind.popLocalScope (back s)).1,
    fun s limit frames => (h.finished Blind.popLocalScope (back s)).2 limit frames⟩

theorem inRealization {x y : Exec Unit} (h : Fits (fun _ => True) x y) (obj : Cell)
    (members : Scope) :
    Fits (fun _ => True) (inRealization obj members x) (inRealization obj members y) := by
  have names : Fits (fun _ => True) innermostNames innermostNames := by
    refine of_blind Blind.innermostNames (.choose fun s => ?_)
    split
    · exact .pure trivial
    · exact .pure trivial
  have blind : Blind Overlay.OfRoom (popInstant >>= fun _ => popLocalScope) :=
    Blind.popInstant.bind fun _ => Blind.popLocalScope
  have back (s t : State)
      (ht : State.AsHigh { s.pushFunctionScope members with instants := obj :: s.instants } t) :
      ∃ v, (popInstant >>= fun _ => popLocalScope) t = .ok () v ∧ s.AsHigh v := by
    have height : t.locals.length = s.locals.length + 1 := ht.locals
    have nesting : t.instants.length = s.instants.length + 1 := ht.instants
    cases hl : t.locals with
    | nil => simp [hl] at height
    | cons top below =>
      cases hi : t.instants with
      | nil => simp [hi] at nesting
      | cons inner outer =>
        refine ⟨{ t with locals := below, instants := outer }, ?_, ?_, ?_, ht.maxCallDepth,
          ht.frames⟩
        · change EStateM.bind _ _ t = _
          rw [EStateM.bind, popInstant_of_cons hi]
          exact popLocalScope_of_cons hl
        · simpa [hl] using height
        · simpa [hi] using nesting
  have run := h.bind fun _ _ => names
  exact ⟨fun s => (run.finished blind (back s)).1,
    fun s limit frames => (run.finished blind (back s)).2 limit frames⟩

/-- A call that begins begins under a larger limit too. -/
theorem activate {x y : Exec Cell} (scope : Scope) (members : Option Scope) (line : Option Nat)
    (h : Fits (fun _ => True) x y) :
    Fits (fun _ => True) (activate scope members line x) (activate scope members line y) := by
  have back (s t : State) (ht : (s.entered scope members).AsHigh t) :
      ∃ v, leaveCall s.locals.length t = .ok () v ∧ s.AsHigh v := by
    have height : s.locals.length ≤ t.locals.length := by
      rw [ht.locals]
      cases members <;> simp [State.entered, State.pushCall, State.pushFunctionScope,
        State.pushBlockScope]
      omega
    refine ⟨_, rfl, ?_, ?_, ?_, ?_⟩
    · change (t.locals.drop (t.locals.length - s.locals.length)).length = _
      rw [List.length_drop]
      omega
    · exact ht.instants.trans (by cases members <;> rfl)
    · exact ht.maxCallDepth.trans (by cases members <;> rfl)
    · exact ht.frames.trans (by cases members <;> rfl)
  have body (s : State) := (h.overrun line).finished (Blind.leaveCall s.locals.length) (back s)
  refine ⟨fun s => ?_, fun s limit frames hl hn => ?_⟩
  · unfold Ends
    rcases Int.lt_or_le s.callDepth s.maxCallDepth with hlt | hle
    · rw [activate_of_lt hlt]
      exact (body s).1
    · rw [activate_of_le hle]
      exact .refl s
  · rcases Int.lt_or_le s.callDepth s.maxCallDepth with hlt | hle
    · have more : (s.overlay (.room limit frames)).callDepth <
          (s.overlay (.room limit frames)).maxCallDepth := Int.lt_of_lt_of_le hlt hl
      rw [activate_of_lt hlt, activate_of_lt more]
      have entered : (s.overlay (.room limit frames)).entered scope members =
          (s.entered scope members).overlay (.room limit frames) := by
        cases members <;> rfl
      rw [entered]
      refine (body s).2 limit frames ?_ ?_
      · cases members <;> exact hl
      · cases members <;> exact hn
    · rw [activate_of_le hle]
      exact .inl ⟨_, rfl, rfl⟩

theorem takeResult {x y : Exec Unit} (h : Fits (fun _ => True) x y) :
    Fits (fun _ => True) (takeResult x) (takeResult y) := by
  have slot : Fits (fun _ => True) (newCell .undefined) (newCell .undefined) :=
    of_blind (Blind.newCell _) fun _ => ⟨trivial, rfl, rfl, rfl, rfl⟩
  refine slot.bind fun c _ => bind (P := fun _ => True)
    (update (fun _ => ⟨rfl, rfl, rfl, rfl⟩) fun _ _ _ => rfl) fun _ _ => h.bind fun _ _ => ?_
  exact bind (P := fun _ => True) (update (fun _ => ⟨rfl, rfl, rfl, rfl⟩) fun _ _ _ => rfl)
    fun _ _ => of_blind Blind.popReturn .popReturn

/-! ## Loops and sequences -/

theorem loopParts : LoopParts (Fits fun _ => True) (Fits fun _ => True) where
  pure _ := pure trivial
  bind hx hf := hx.bind fun a _ => hf a
  outOfFuel := throw _
  clear _ := update (fun _ => ⟨rfl, rfl, rfl, rfl⟩) fun _ _ _ => rfl
  loopExit := read (fun _ => trivial) fun _ _ _ => rfl
  whole h := bind (P := fun _ => True) (update (fun _ => ⟨rfl, rfl, rfl, rfl⟩) fun _ _ _ => rfl)
    fun _ _ => h.bind fun _ _ => update (fun _ => ⟨rfl, rfl, rfl, rfl⟩) fun _ _ _ => rfl

theorem runAll {f g : Stmt → Exec Unit} (h : ∀ st, Fits (fun _ => True) (f st) (g st))
    (ss : List Stmt) : Fits (fun _ => True) (runAll f ss) (runAll g ss) := by
  induction ss with
  | nil => exact pure trivial
  | cons st ss ih =>
    refine (h st).bind fun _ _ => choose (fun s => ?_) fun _ _ _ => rfl
    split
    · exact pure trivial
    · exact ih

end Fits

end Exec

/-! ## The logic -/

open Exec (Fits Leveled Blind)

/-- Fitting, whatever the storage holds. -/
def fittingSteps : StoreLogic (.making fun _ => True) where
  Rel _ _ Q x y := Fits Q x y
  pure := Fits.pure
  bind := Fits.bind
  mono _ := Fits.mono
  throw f _ := Fits.throw f
  located line h := h.mapFailure (Failure.isOverrun_located line)
  storage := .of_blind Blind.storage fun s => ⟨trivial, .refl s⟩
  value c := .of_blind (Blind.value c) fun s => ⟨trivial, .refl s⟩
  allocate f h := .of_blind (Blind.allocate f) fun s =>
    ⟨(h s.store fun _ _ => trivial).1, rfl, rfl, rfl, rfl⟩
  find? name := .of_blind (Blind.find? name) fun s => ⟨trivial, .refl s⟩
  findType? name := .of_blind (Blind.findType? name) fun s => ⟨fun _ _ => trivial, .refl s⟩
  instant? := Fits.read (fun _ => trivial) fun _ _ _ => rfl
  addAnonymous c := .of_blind (Blind.addAnonymous c) (.addAnonymous c)
  print _ := Fits.update (fun _ => ⟨rfl, rfl, rfl, rfl⟩) fun _ _ _ => rfl
  log _ _ _ := Fits.update (fun _ => ⟨rfl, rfl, rfl, rfl⟩) fun _ _ _ => rfl
  randomBetween _ _ :=
    .of_blind (Blind.updateGet fun _ _ => rfl) fun _ => ⟨trivial, rfl, rfl, rfl, rfl⟩
  raise _ := Fits.update (fun _ => ⟨rfl, rfl, rfl, rfl⟩) fun _ _ _ => rfl
  setReturn c line := .of_blind (Blind.setReturn c line) (.setReturn c line)

namespace Exec.Fits

theorem newName (name : String) (line : Option Nat) :
    Fits (fun _ => True) (newName name line) (newName name line) := by
  refine of_blind (Blind.newName name line) ?_
  refine Leveled.bind (P := fun _ => True) (fun _ => ⟨trivial, rfl, rfl, rfl, rfl⟩) fun c _ =>
    Leveled.bind (P := fun _ => True) (.choose fun s => ?_) fun _ _ => .pure trivial
  split
  · exact .addLocal name c
  · exact .addGlobal name c line

theorem declareFunction (f : FunctionDef Stmt) :
    Fits (fun _ => True) (declareFunction f) (declareFunction f) := by
  refine of_blind (Blind.declareFunction f) ?_
  refine Leveled.bind (P := fun _ => True) (fun s => ⟨trivial, .refl s⟩) fun c _ => ?_
  split
  · refine Leveled.bind (P := fun _ => True) (fun s => ⟨trivial, .refl s⟩) fun v _ => ?_
    split
    · split
      · exact .pure trivial
      · exact .throw _
    · exact .throw _
  · refine Leveled.bind (P := fun _ => True) (fun _ => ⟨trivial, rfl, rfl, rfl, rfl⟩) fun c _ =>
      .choose fun s => ?_
    split
    · exact .addGlobal _ c _
    · exact .addLocal _ c

end Exec.Fits

/-- Fitting is a logic of all programs. -/
def fitting : ProgramLogic (.making fun _ => True) where
  toStepLogic := fittingSteps.steps fun name =>
    .of_blind (Blind.declareGlobal name) (.update fun s => s.asHigh_mapTop _)
  Fresh _ _ x y := Fits (fun _ => True) x y
  jumps _ h := h
  evaluateName name use line _ := by
    refine Fits.bind (fittingSteps.find? name) fun c _ => ?_
    split
    · exact .pure trivial
    · cases use with
      | operand => exact .fail _ _
      | location => exact .newName _ _
  fresh h := h
  prepared hd h := by
    have declarations : (Fragment.making fun _ => True).Declarations
        fun x y => Fits (fun _ => True) x y :=
      { pure := .pure trivial
        bind := fun hx hy => hx.bind fun _ _ => hy
        declareFunction := fun f _ => .declareFunction f
        addType := fun name t line _ =>
          .of_blind (Blind.addType name t line) (.addType name t line) }
    exact (declarations.prepareAll hd).bind fun _ _ => h
  takeResult := Fits.takeResult
  inBlock := Fits.inBlock
  fillObject obj r h :=
    fittingSteps.fillObject (l := .ofReturn) obj r fun _ _ => h.inRealization obj _
  loopBefore limit _ := Fits.loopParts.loopBefore limit
  loopAfter limit _ := Fits.loopParts.loopAfter limit

end CellScript
