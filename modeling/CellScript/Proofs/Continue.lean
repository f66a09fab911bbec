import Mathlib
import CellScript.Proofs.Balance
import CellScript.Proofs.Blind
import CellScript.Proofs.Parse.Formed
import CellScript.Proofs.Turns

/-!
# What a left-over `continue` does

A loop takes `continue` back only before the next turn of its body, so the condition, and in a `for`
the step, is run with the flag still up (`Exec.afterBody_succ`). The flag is looked at by sequences
of statements alone: a function body that is called then stops after its first statement.

`Interp.watching` is the interpreter that gives up where that happens: where statements are left
over in a sequence that was begun with `continue` up, and nothing but this flag stops it. It gives
up by the failure that no run of the language ends in. The main theorem says that nothing else goes
wrong: step and condition have the same result, the same effects and the same failures as they have
with the flag down, and run all that they call to its end, exactly if no sequence is cut short.

* `State.Near`: two states that differ at most in a left-over `continue`;
* `Exec.Mirrors`: a step that may give up and the step it stands for, which does the same in near
  states;
* `mirror`: this is a congruence, so it relates the two interpreters.
-/

namespace CellScript

/-- The second state is the first one, or the first one with `continue` taken back. -/
def State.Near (s t : State) : Prop :=
  t = s ∨ s.flags.continuing = true ∧ t = s.clear .ofContinue

namespace State.Near

theorem clear {s t : State} (h : s.Near t) (f : Flags) : (s.clear f).Near (t.clear f) := by
  rcases h with rfl | ⟨hc, rfl⟩
  · exact .inl rfl
  · cases hf : f.continuing with
    | true =>
      refine .inl ?_
      simp [State.clear, Flags.diff, Flags.ofContinue, hf]
    | false =>
      refine .inr ⟨by simp [State.clear, Flags.diff, hf, hc], ?_⟩
      simp [State.clear, Flags.diff, Flags.ofContinue]

theorem raise {s t : State} (h : s.Near t) (f : Flags) : (s.raise f).Near (t.raise f) := by
  rcases h with rfl | ⟨hc, rfl⟩
  · exact .inl rfl
  · cases hf : f.continuing with
    | true =>
      refine .inl ?_
      simp [State.raise, State.clear, Flags.union, Flags.diff, Flags.ofContinue, hf]
    | false =>
      refine .inr ⟨by simp [State.raise, Flags.union, hc], ?_⟩
      simp [State.raise, State.clear, Flags.union, Flags.diff, Flags.ofContinue, hf]

theorem loopExit {s t : State} (h : s.Near t) :
    t.flags.meets .loopExit = s.flags.meets .loopExit := by
  rcases h with rfl | ⟨_, rfl⟩
  · rfl
  · simp [State.clear, Flags.meets, Flags.diff, Flags.ofContinue, Flags.loopExit]

end State.Near

namespace Exec

variable {α β : Type}

/-- Two outcomes that differ at most in a left-over `continue`; if completed, the first has `J`. -/
inductive Twins (J : α → State → Prop) :
    EStateM.Result Failure State α → EStateM.Result Failure State α → Prop
  | ok {a : α} {s t : State} : J a s → s.Near t → Twins J (.ok a s) (.ok a t)
  | error {f : Failure} {s t : State} : s.Near t → Twins J (.error f s) (.error f t)

theorem Twins.outcome {J : α → State → Prop} {r r' : EStateM.Result Failure State α}
    (h : Twins J r r') :
    (∃ a s t, r = .ok a s ∧ r' = .ok a t ∧ J a s ∧ s.Near t) ∨
      ∃ f s t, r = .error f s ∧ r' = .error f t ∧ s.Near t := by
  cases h with
  | ok ha near => exact .inl ⟨_, _, _, rfl, rfl, ha, near⟩
  | error near => exact .inr ⟨_, _, _, rfl, rfl, near⟩

/-- From states with `I`, the first step gives up or is the second one, which does the same in near
states. -/
def Mirrors (I : State → Prop) (J : α → State → Prop) (x y : Exec α) : Prop :=
  ∀ s t : State, I s → s.Near t → GaveUp (x s) ∨ x s = y s ∧ Twins J (y s) (y t)

/-- A step that does not look at the flags does the same in near states. -/
theorem Blind.twins {x : Exec α} (hb : Blind Overlay.OfFlags x) {J : α → State → Prop}
    {E : Failure → State → Prop} {s t : State} (ends : x.Ends s J E) (hst : s.Near t) :
    Twins J (x s) (x t) := by
  unfold Ends at ends
  rcases hst with rfl | ⟨hc, rfl⟩
  · cases hr : x t with
    | ok a u => exact .ok (by simpa only [hr] using ends) (.inl rfl)
    | error e u => exact .error (.inl rfl)
  · have cleared : x (s.clear .ofContinue) = withFlags (s.flags.diff .ofContinue) (x s) :=
      hb.other_flags s (s.flags.diff .ofContinue)
    rw [cleared]
    cases hr : x s with
    | ok a u =>
      have hf := hb.flags_ok hr
      refine .ok (by simpa only [hr] using ends) (.inr ⟨hf ▸ hc, ?_⟩)
      simp only [State.clear, hf]
    | error e u =>
      have hf := hb.flags_error hr
      refine .error (.inr ⟨hf ▸ hc, ?_⟩)
      simp only [State.clear, hf]

namespace Mirrors

variable {I : State → Prop} {J : α → State → Prop} {K : β → State → Prop}

/-- What comes of the first step in one state, and of the second step in both. -/
theorem outcome {x y : Exec α} (h : Mirrors I J x y) {s t : State} (hs : I s) (hst : s.Near t) :
    (∃ u, x s = .error .emptyStack u) ∨
      (∃ a u v, x s = .ok a u ∧ y s = .ok a u ∧ y t = .ok a v ∧ J a u ∧ u.Near v) ∨
      ∃ f u v, x s = .error f u ∧ y s = .error f u ∧ y t = .error f v ∧ u.Near v := by
  rcases h s t hs hst with given | ⟨same, twins⟩
  · exact .inl given.eq_error
  · rw [same]
    rcases twins.outcome with ⟨a, u, v, hu, hv, ha, near⟩ | ⟨f, u, v, hu, hv, near⟩
    · exact .inr (.inl ⟨a, u, v, hu, hu, hv, ha, near⟩)
    · exact .inr (.inr ⟨f, u, v, hu, hu, hv, near⟩)

theorem bind {x y : Exec α} {f g : α → Exec β} (hx : Mirrors I J x y)
    (hf : ∀ a, Mirrors (J a) K (f a) (g a)) : Mirrors I K (x >>= f) (y >>= g) := by
  intro s t hs hst
  rcases hx.outcome hs hst with
    ⟨u, given⟩ | ⟨a, u, v, first, second, near, ha, huv⟩ | ⟨e, u, v, first, second, near, huv⟩
  · rw [bind_of_error given]
    exact .inl rfl
  · rw [bind_of_ok first, bind_of_ok second, bind_of_ok near]
    exact hf a u v ha huv
  · rw [bind_of_error first, bind_of_error second, bind_of_error near]
    exact .inr ⟨rfl, .error huv⟩

/-- What is known of the second step can be added to the outcome. -/
theorem strengthen {J' : α → State → Prop} {E : Failure → State → Prop} {x y : Exec α}
    (h : Mirrors I J x y) (hy : ∀ s, I s → y.Ends s J' E) : Mirrors I J' x y := by
  intro s t hs hst
  refine (h s t hs hst).imp_right fun ⟨same, twins⟩ => ⟨same, ?_⟩
  rcases twins.outcome with ⟨a, u, v, hu, hv, -, huv⟩ | ⟨e, u, v, hu, hv, huv⟩
  · rw [hu, hv]
    exact .ok ((hy s hs).ok hu) huv
  · rw [hu, hv]
    exact .error huv

theorem of_blind {x : Exec α} (hb : Blind Overlay.OfFlags x) {E : Failure → State → Prop}
    (hx : ∀ s, I s → x.Ends s J E) : Mirrors I J x x :=
  fun s _ hs hst => Or.inr ⟨rfl, hb.twins (hx s hs) hst⟩

theorem pure {a : α} (h : ∀ s, I s → J a s) : Mirrors I J (pure a) (pure a) :=
  of_blind (E := fun _ _ => True) (Blind.pure a) h

/-! ## Steps around steps -/

theorem mapFailure {x y : Exec α} {g : Failure → Failure} (h : Mirrors I J x y)
    (hg : g .emptyStack = .emptyStack) : Mirrors I J (mapFailure g x) (mapFailure g y) := by
  intro s t hs hst
  unfold Exec.mapFailure
  rcases h.outcome hs hst with
    ⟨u, given⟩ | ⟨a, u, v, first, second, near, ha, huv⟩ | ⟨e, u, v, first, second, near, huv⟩
  · rw [given]
    exact .inl hg
  · rw [first, second, near]
    exact .inr ⟨rfl, .ok ha huv⟩
  · rw [first, second, near]
    exact .inr ⟨rfl, .error huv⟩

theorem located {x y : Exec α} (h : Mirrors I J x y) (line : Option Nat) :
    Mirrors I J (Exec.mapFailure (Failure.located line) x)
      (Exec.mapFailure (Failure.located line) y) :=
  h.mapFailure rfl

theorem overrun {x y : Exec α} (h : Mirrors I J x y) (line : Option Nat) :
    Mirrors I J (Exec.mapFailure (Exec.overrun line) x) (Exec.mapFailure (Exec.overrun line) y) :=
  h.mapFailure rfl

/-- A finisher that does not look at the flags and fails, if ever, at an empty stack. -/
theorem ensuring {x y : Exec α} {finish : Exec Unit} {J' : α → State → Prop}
    (h : Mirrors I J x y) (hb : Blind Overlay.OfFlags finish)
    (hf : ∀ a s, J a s → finish.Ends s (fun _ t => J' a t) fun _ _ => True)
    (he : ∀ s, finish.Ends s (fun _ _ => True) fun f _ => f = .emptyStack) :
    Mirrors I J' (ensuring x finish) (ensuring y finish) := by
  intro s t hs hst
  unfold Exec.ensuring
  rcases h.outcome hs hst with
    ⟨u, given⟩ | ⟨a, u, v, first, second, near, ha, huv⟩ | ⟨e, u, v, first, second, near, huv⟩
  · rw [given]
    dsimp only
    cases hu : finish u with
    | ok _ w => exact .inl rfl
    | error e w => exact .inl ((he u).error hu)
  · rw [first, second, near]
    refine .inr ⟨rfl, ?_⟩
    dsimp only
    rcases (hb.twins (hf a u ha) huv).outcome with
      ⟨_, w, z, hw, hz, hj, near⟩ | ⟨e, w, z, hw, hz, near⟩
    · rw [hw, hz]
      exact .ok hj near
    · rw [hw, hz]
      exact .error near
  · rw [first, second, near]
    refine .inr ⟨rfl, ?_⟩
    dsimp only
    rcases (hb.twins (he u) huv).outcome with
      ⟨_, w, z, hw, hz, -, near⟩ | ⟨e, w, z, hw, hz, near⟩
    · rw [hw, hz]
      exact .error near
    · rw [hw, hz]
      exact .error near

/-! ## Flags -/

theorem clear (f : Flags) (hI : ∀ s, I s → I (s.clear f)) :
    Mirrors I (fun _ => I) (clear f) (clear f) :=
  fun s _ hs hst => Or.inr ⟨rfl, .ok (hI s hs) (hst.clear f)⟩

theorem raise (f : Flags) : Mirrors I (fun _ _ => True) (raise f) (raise f) :=
  fun _ _ _ hst => Or.inr ⟨rfl, .ok trivial (hst.raise f)⟩

theorem loopExit : Mirrors I (fun _ => I) (isRaised .loopExit) (isRaised .loopExit) := by
  intro s t hs hst
  refine Or.inr ⟨rfl, ?_⟩
  change Twins _ (.ok (s.flags.meets .loopExit) s) (.ok (t.flags.meets .loopExit) t)
  rw [hst.loopExit]
  exact .ok hs hst

end Mirrors

/-! ## The congruence -/

/-- The second step restores, and the first one mirrors it. -/
def Mirrored (l : Flags) (Q : α → Prop) (x y : Exec α) : Prop :=
  Restores l Q y ∧ Mirrors State.Sound (fun _ _ => True) x y

namespace Mirrored

variable {l : Flags} {P Q : α → Prop}

theorem sound {x y : Exec α} (h : Mirrored l Q x y) :
    Mirrors State.Sound (fun a s => Q a ∧ s.Sound) x y :=
  h.2.strengthen (E := fun _ _ => True) fun s hs =>
    (h.1 s hs).mono (fun _ _ ⟨ha, ht, _⟩ => ⟨ha, ht⟩) fun _ _ _ => trivial

/-- Sound states in front and behind. -/
theorem keeps {x y : Exec α} (h : Mirrored l Q x y) :
    Mirrors State.Sound (fun _ => State.Sound) x y :=
  h.2.strengthen (E := fun _ _ => True) fun s hs =>
    (h.1 s hs).mono (fun _ _ ⟨_, ht, _⟩ => ht) fun _ _ _ => trivial

theorem of_blind {x : Exec α} (hb : Blind Overlay.OfFlags x) (hr : Restores l Q x) :
    Mirrored l Q x x :=
  ⟨hr, .of_blind (E := fun _ _ => True) hb fun s hs =>
    (hr s hs).mono (fun _ _ _ => trivial) fun _ _ _ => trivial⟩

theorem bind {R : β → Prop} {x y : Exec α} {f g : α → Exec β} (hx : Mirrored l P x y)
    (hf : ∀ a, P a → Mirrored l R (f a) (g a)) : Mirrored l R (x >>= f) (y >>= g) :=
  ⟨hx.1.bind fun a ha => (hf a ha).1, hx.sound.bind fun a s t hs => (hf a hs.1).2 s t hs.2⟩

/-- A step that does not look at the flags and keeps sound states sound, but need not restore. -/
theorem mirrors_self {x : Exec α} (hb : Blind Overlay.OfFlags x)
    (hx : ∀ s, s.Sound → x.Ends s (fun _ t => t.Sound) fun _ _ => True) :
    Mirrors State.Sound (fun _ => State.Sound) x x :=
  .of_blind hb hx

theorem sound_flags {s : State} (h : s.Sound) (f : Flags) : (s.clear f).Sound :=
  ⟨h.cells, h.types, h.globals⟩

theorem takeResult {x y : Exec Unit} (h : Mirrored .ofReturn (fun _ => True) x y) :
    Mirrored .none (fun _ => True) (takeResult x) (takeResult y) := by
  refine ⟨Restores.takeResult h.1, ?_⟩
  have slot := of_blind (Blind.newCell .undefined) (Restores.newCell (l := .none) trivial)
  refine slot.keeps.bind fun c => (mirrors_self (Blind.pushReturn c) ?_).bind fun _ => ?_
  · exact fun s hs => ⟨hs.cells, hs.types, hs.globals⟩
  refine h.keeps.bind fun _ => (Mirrors.clear _ fun s hs => sound_flags hs _).bind fun _ => ?_
  exact .of_blind (E := fun _ _ => True) Blind.popReturn fun s _ => by
    unfold Ends
    split <;> trivial

theorem inCall {x y : Exec Cell} (parameters : List String) (owner : Option ObjectRef)
    (args : List Cell) (line : Option Nat) (h : Mirrored .none (fun _ => True) x y) :
    Mirrored .none (fun _ => True) (inCall parameters owner args line x)
      (inCall parameters owner args line y) := by
  refine ⟨Restores.inCall _ _ _ _ h.1, ?_⟩
  have members := of_blind (Blind.ownerScope owner) (Restores.ownerScope (l := .none) owner)
  have scope := of_blind (Blind.argumentScope parameters args line)
    (Restores.argumentScope (l := .none) parameters args line)
  refine members.keeps.bind fun members => scope.keeps.bind fun scope => ?_
  refine (mirrors_self (Blind.enterCall line) fun s hs => ?_).bind fun _ => ?_
  · exact .enterCall (fun _ => ⟨hs.cells, hs.types, hs.globals⟩) fun _ => trivial
  refine (mirrors_self Blind.localDepth fun s hs => hs).bind fun depth => ?_
  refine (mirrors_self (Blind.update fun s f => ?_) fun s hs => ?_).bind fun _ => ?_
  · cases members <;> rfl
  · cases members <;> exact ⟨hs.cells, hs.types, hs.globals⟩
  · exact (h.2.overrun line).ensuring (Blind.leaveCall depth) (fun _ _ _ => trivial)
      fun _ => trivial

theorem popLocalScope_ends (s : State) :
    popLocalScope.Ends s (fun _ _ => True) fun f _ => f = .emptyStack :=
  .popLocalScope (fun _ _ _ => trivial) fun _ => rfl

theorem inBlock {x y : Exec Unit} (h : Mirrored l (fun _ => True) x y) :
    Mirrored l (fun _ => True) (inBlock x) (inBlock y) := by
  refine ⟨Restores.inBlock h.1, ?_⟩
  refine (mirrors_self (Blind.update fun _ _ => rfl) fun s hs => ?_).bind fun _ => ?_
  · exact ⟨hs.cells, hs.types, hs.globals⟩
  · exact h.2.ensuring Blind.popLocalScope
      (fun _ s _ => (popLocalScope_ends s).mono (fun _ _ h => h) fun _ _ _ => trivial)
      popLocalScope_ends

theorem inRealization {x y : Exec Unit} (obj : Cell) (members : Scope)
    (h : Mirrored l (fun _ => True) x y) :
    Mirrored l (fun _ => True) (inRealization obj members x) (inRealization obj members y) := by
  refine ⟨Restores.inRealization obj members h.1, ?_⟩
  refine (mirrors_self (Blind.update fun _ _ => rfl) fun s hs => ?_).bind fun _ => ?_
  · exact ⟨hs.cells, hs.types, hs.globals⟩
  refine (mirrors_self (Blind.pushInstant obj) fun s hs => ?_).bind fun _ => ?_
  · exact ⟨hs.cells, hs.types, hs.globals⟩
  have names : Mirrors State.Sound (fun _ _ => True) innermostNames innermostNames := by
    refine .of_blind (E := fun _ _ => True) Blind.innermostNames fun s _ => ?_
    unfold Ends
    split <;> trivial
  have closing (s : State) : Ends (do popInstant; popLocalScope) s (fun _ _ => True)
      fun f _ => f = .emptyStack := by
    have ended : popInstant.Ends s (fun _ _ => True) fun f _ => f = .emptyStack :=
      .popInstant (fun _ _ _ => trivial) fun _ => rfl
    exact ended.bind fun _ t _ => popLocalScope_ends t
  exact (h.keeps.bind fun _ => names).ensuring (Blind.popInstant.bind fun _ => Blind.popLocalScope)
    (fun _ s _ => (closing s).mono (fun _ _ h => h) fun _ _ _ => trivial) closing

theorem fillObject {x y : Exec Unit} (obj : Cell) (r : ObjectRef)
    (h : Mirrored l (fun _ => True) x y) :
    Mirrored l (fun _ => True) (fillObject obj r x) (fillObject obj r y) :=
  (of_blind (Blind.memberScope r) (Restores.memberScope r)).bind fun _ _ =>
    (inRealization obj _ h).bind fun _ _ =>
      (of_blind (Blind.promote r _) (Restores.promote r _)).bind fun _ _ =>
        of_blind (Blind.bindParent r) (Restores.bindParent r)

/-! ### Loops -/

theorem clear (f : Flags) : Mirrored l (fun _ => True) (clear f) (clear f) :=
  ⟨Restores.clear f, (Mirrors.clear f fun _ hs => sound_flags hs f).strengthen
    (E := fun _ _ => True) fun _ _ => trivial⟩

theorem loopExit : Mirrored l (fun _ => True) (isRaised .loopExit) (isRaised .loopExit) :=
  ⟨Restores.isRaised _, Mirrors.loopExit.strengthen (E := fun _ _ => True) fun _ _ => trivial⟩

theorem pure {a : α} (h : Q a) : Mirrored l Q (pure a) (pure a) :=
  of_blind (Blind.pure a) (Restores.pure h)

theorem throw {f : Failure} (h : f ≠ .emptyStack) :
    Mirrored l Q (throw f : Exec α) (throw f) :=
  of_blind (Blind.throw f) (Restores.throw h)

theorem mono {m : Flags} {x y : Exec α} (hl : l.Below m) (hQ : ∀ a, P a → Q a)
    (h : Mirrored l P x y) : Mirrored m Q x y :=
  ⟨h.1.mono hl hQ, h.2⟩

theorem loopParts : LoopParts (Mirrored (.within true) fun _ => True)
    (Mirrored .ofReturn fun _ => True) where
  pure _ := pure trivial
  bind hx hf := hx.bind fun a _ => hf a
  outOfFuel := throw (by simp)
  clear := clear
  loopExit := loopExit
  whole h := ⟨Restores.wholeLoop h.1,
    (Mirrored.bind (clear _) fun _ _ => h.bind fun _ _ => clear _).2⟩

theorem loopBefore {c c' : Exec Bool} {x y u v : Exec Unit} (limit : Nat)
    (hc : Mirrored .none (fun _ => True) c c') (hb : Mirrored (.within true) (fun _ => True) x y)
    (hn : Mirrored .ofReturn (fun _ => True) u v) :
    Mirrored .ofReturn (fun _ => True) (loopBefore limit c x u) (loopBefore limit c' y v) :=
  loopParts.loopBefore limit (hc.mono (Flags.none_below _) fun _ h => h) hb
    (hn.mono (Flags.ofReturn_below_within _) fun _ h => h)

theorem loopAfter {c c' : Exec Bool} {x y : Exec Unit} (limit : Nat)
    (hc : Mirrored .none (fun _ => True) c c')
    (hb : Mirrored (.within true) (fun _ => True) x y) :
    Mirrored .ofReturn (fun _ => True) (loopAfter limit c x) (loopAfter limit c' y) :=
  loopParts.loopAfter limit (hc.mono (Flags.none_below _) fun _ h => h) hb

theorem evaluateList {f g : Expr → Exec Cell} (es : List Expr)
    (hf : ∀ e, Mirrored .none (fun _ => True) (f e) (g e)) :
    Mirrored .none (fun _ => True) (evaluateList f es) (evaluateList g es) := by
  refine ⟨Restores.evaluateList es fun e => (hf e).1, ?_⟩
  have elements :
      Mirrored .none (fun _ => True) (evaluateElements f es) (evaluateElements g es) := by
    induction es with
    | nil => exact pure trivial
    | cons e es ih =>
      exact (hf e).bind fun _ _ => (of_blind (Blind.copyCell _) (Restores.copyCell _)).bind
        fun _ _ => ih.bind fun _ _ => pure trivial
  exact elements.keeps.bind fun cs => .of_blind (E := fun _ _ => True)
    ((Blind.allocate _).bind fun _ => Blind.newCell _) fun _ _ => trivial

end Mirrored

/-! ## Watching sequences -/

/-- Run statements until one of them cuts the normal course short, and give up where statements are
left over because of a `continue` from before all of them. -/
def runWatching (execute : Stmt → Exec Unit) : List Stmt → Exec Unit
  | [] => pure ()
  | st :: rest => do
    let before := (← get).flags
    execute st
    let after := (← get).flags
    if before.continuing && after == .ofContinue && !rest.isEmpty then throw .emptyStack
    else if after.any then pure ()
    else runWatching execute rest

theorem any_of_near {s t : State} (h : s.Near t) (hs : s.flags.any = true) :
    t = s ∨ t.flags.any = true ∨ s.flags = .ofContinue := by
  rcases h with rfl | ⟨hc, rfl⟩
  · exact Or.inl rfl
  · refine Or.inr ?_
    rcases hf : s.flags with ⟨returning, breaking, continuing⟩
    simp only [hf] at hc
    simp only [State.clear, hf, Flags.any, Flags.diff, Flags.ofContinue, hc]
    cases returning <;> cases breaking <;> simp

theorem eq_of_near {s t : State} (h : s.Near t) (hs : s.flags.continuing = false) : t = s := by
  rcases h with rfl | ⟨hc, rfl⟩
  · rfl
  · exact absurd hc (by simp [hs])

/-- A sequence stops in near states at the same place, unless it is given up. -/
theorem Mirrored.sequence {l : Flags} {f g : Stmt → Exec Unit} {ss : List Stmt}
    (h : ∀ st ∈ ss, Mirrored l (fun _ => True) (f st) (g st)) :
    Mirrored l (fun _ => True) (runWatching f ss) (runAll g ss) := by
  refine ⟨Restores.runAll fun st hst => (h st hst).1, ?_⟩
  induction ss with
  | nil => exact .pure fun _ _ => trivial
  | cons st rest ih =>
    have tail := ih fun st hst => h st (List.mem_cons_of_mem _ hst)
    intro s t hs hst
    have first := h st List.mem_cons_self
    have watched : runWatching f (st :: rest) s = (f st >>= fun _ => get >>= fun u =>
        if s.flags.continuing && u.flags == .ofContinue && !rest.isEmpty
          then MonadExcept.throw .emptyStack
        else if u.flags.any then Pure.pure () else runWatching f rest) s := rfl
    have plain (s : State) : runAll g (st :: rest) s = (g st >>= fun _ => get >>= fun u =>
        if u.flags.any then Pure.pure () else runAll g rest) s := rfl
    rw [watched, plain s, plain t]
    rcases first.keeps.outcome hs hst with
      ⟨u, given⟩ | ⟨_, u, v, same, hgs, hgt, hu, huv⟩ | ⟨e, u, v, same, hgs, hgt, huv⟩
    · rw [bind_of_error given]
      exact .inl rfl
    · rw [bind_of_ok same, bind_of_ok hgs, bind_of_ok hgt, get_bind_apply, get_bind_apply,
        get_bind_apply]
      by_cases hcut : (s.flags.continuing && u.flags == .ofContinue && !rest.isEmpty) = true
      · rw [if_pos hcut]
        exact .inl rfl
      rw [if_neg hcut]
      by_cases hany : u.flags.any = true
      · rw [if_pos hany, if_pos hany]
        refine .inr ⟨rfl, ?_⟩
        by_cases hv : v.flags.any = true
        · rw [if_pos hv]
          exact .ok trivial huv
        · -- Only a `continue` from before the sequence makes the difference.
          have hvu : v ≠ u := fun e => hv (e ▸ hany)
          have hcont : s.flags.continuing = true := by
            cases hc : s.flags.continuing with
            | true => rfl
            | false =>
              rw [eq_of_near hst hc, hgs] at hgt
              injection hgt with _ huv
              exact absurd huv.symm hvu
          have honly : u.flags = .ofContinue :=
            ((any_of_near huv hany).resolve_left hvu).resolve_left hv
          have hrest : rest = [] := by simpa [hcont, honly] using hcut
          rw [if_neg hv, hrest]
          exact .ok trivial huv
      · have hc : u.flags.continuing = false := by
          simp only [Flags.any, Bool.or_eq_true, not_or] at hany
          simpa using hany.2
        rw [eq_of_near huv hc, if_neg hany, if_neg hany]
        exact tail u u hu (.inl rfl)
    · rw [bind_of_error same, bind_of_error hgs, bind_of_error hgt]
      exact .inr ⟨rfl, .error huv⟩

end Exec

open Exec (Restores Mirrored Blind)

/-- Mirroring is a congruence. -/
def mirror : Congruence where
  Rel l _ Q x y := Mirrored l Q x y
  pure := Mirrored.pure
  bind := Mirrored.bind
  mono := Mirrored.mono
  throw _ := Mirrored.throw
  located line h := ⟨h.1.located line, h.2.located line⟩
  storage := .of_blind Blind.storage balance.storage
  frames := .of_blind Blind.frames balance.frames
  value c := .of_blind (Blind.value c) (balance.value c)
  find? name := .of_blind (Blind.find? name) (balance.find? name)
  findType? name := .of_blind (Blind.findType? name) (balance.findType? name)
  newCell v hv := .of_blind (Blind.newCell v) (balance.newCell v hv)
  allocate f hf := .of_blind (Blind.allocate f) (balance.allocate f hf)
  store c v line hv := .of_blind (Blind.store c v line) (balance.store c v line hv)
  copyCell c := .of_blind (Blind.copyCell c) (balance.copyCell c)
  append r c := .of_blind (Blind.append r c) (balance.append r c)
  evaluateList := Mirrored.evaluateList
  makeObject t ht := .of_blind (Blind.makeObject t) (balance.makeObject t ht)
  newMember o name line := .of_blind (Blind.newMember o name line) (balance.newMember o name line)
  newName name line := .of_blind (Blind.newName name line) (balance.newName name line)
  declareFunction f hf := .of_blind (Blind.declareFunction f) (balance.declareFunction f hf)
  addType name t line ht := .of_blind (Blind.addType name t line) (balance.addType name t line ht)
  declareGlobal name := .of_blind (Blind.declareGlobal name) (balance.declareGlobal name)
  addAnonymous c := .of_blind (Blind.addAnonymous c) (balance.addAnonymous c)
  print t := .of_blind (Blind.update fun _ _ => rfl) (balance.print t)
  log level logger t := .of_blind (Blind.update fun _ _ => rfl) (balance.log level logger t)
  randomBetween a b := .of_blind (Blind.updateGet fun _ _ => rfl) (balance.randomBetween a b)
  raise f := ⟨Restores.raise f, Exec.Mirrors.raise f⟩
  setReturn c line := .of_blind (Blind.setReturn c line) (balance.setReturn c line)
  takeResult := Mirrored.takeResult
  inCall := Mirrored.inCall
  inBlock := Mirrored.inBlock
  loopBefore := Mirrored.loopBefore
  loopAfter := Mirrored.loopAfter
  fillObject := Mirrored.fillObject

/-- The interpreter that gives up where a left-over `continue` cuts a sequence short. -/
def Interp.watching (host : Host) (n : Nat) : Interp := Interp.tied Exec.runWatching host n

theorem mirror_watching (host : Host) (n : Nat) :
    mirror.Agree (Interp.watching host n) (Interp.withFuel host n) := by
  rw [Interp.withFuel_eq_tied]
  refine mirror.agree_tied ?_ host n
  intro f g inLoop ss hf hss
  have each : ∀ st ∈ ss, Mirrored (.within inLoop) (fun _ => True) (f st) (g st) :=
    fun st hst => hf (Stmt.closedAll_iff.1 hss st hst)
  exact Mirrored.sequence each

/-! ## Between two turns -/

namespace Exec

theorem mirrored_betweenTurns {p q : Interp} (h : mirror.Agree p q) {loop : Stmt} {inLoop : Bool}
    (hl : loop.closed inLoop = true) :
    Mirrored .ofReturn (fun _ => True) (betweenTurns p loop) (betweenTurns q loop) := by
  have condition (e : Expr) (line : Nat) :
      Mirrored .ofReturn (fun _ => True) (holds p e line) (holds q e line) :=
    (h.holds e line).weaken
  unfold betweenTurns
  split
  · exact condition _ _
  · exact condition _ _
  · simp only [Stmt.closed, Bool.and_eq_true] at hl
    refine Mirrored.bind (h.execute hl.1.2) fun _ _ => Mirrored.loopExit.bind fun stop _ => ?_
    split
    · exact Mirrored.pure trivial
    · exact condition _ _
  · exact Mirrored.pure trivial

theorem Restores.not_gaveUp {α : Type} {l : Flags} {Q : α → Prop} {x : Exec α}
    (h : Restores l Q x) {s : State} (hs : s.Sound) : ¬ GaveUp (x s) := by
  have ends := h s hs
  unfold Ends at ends
  cases hx : x s with
  | ok a t => exact id
  | error f t =>
    rw [hx] at ends
    exact ends.1

theorem Restores.sound {α : Type} {l : Flags} {Q : α → Prop} {x : Exec α} (h : Restores l Q x)
    {s t : State} {a : α} (hs : s.Sound) (hx : x s = .ok a t) : t.Sound := by
  have ends := h s hs
  unfold Ends at ends
  rw [hx] at ends
  exact ends.2.1

end Exec

open Exec (betweenTurns GaveUp Twins)

/-- A turn has ended by `continue`. What the loop does before the next one runs all that it calls to
the end, and has the result, the effects and the failure that it has with the flag down, exactly if
no sequence of statements is cut short by the flag. -/
theorem continue_spares_next_turn_iff (host : Host) (n : Nat) {script : Script} {loop body : Stmt}
    (parsed : script.Parsed) (hloop : loop.Among script.statements) (hbody : loop.body? = some body)
    {s t : State} (hs : s.Sound) (run : (Interp.withFuel host n).execute body s = .ok () t)
    (continued : t.flags.continuing = true) :
    (betweenTurns (Interp.watching host n) loop t = betweenTurns (Interp.withFuel host n) loop t ∧
      Twins (fun _ _ => True) (betweenTurns (Interp.withFuel host n) loop t)
        (betweenTurns (Interp.withFuel host n) loop (t.clear .ofContinue))) ↔
    ¬ GaveUp (betweenTurns (Interp.watching host n) loop t) := by
  obtain ⟨inLoop, closed⟩ :=
    hloop.closed fun st h => ⟨false, Stmt.closedAll_iff.1 parsed.closed st h⟩
  have hbodyClosed : body.closed true = true := by
    unfold Stmt.body? at hbody
    split at hbody <;> simp_all [Stmt.closed]
  have ht : t.Sound := Exec.Restores.sound ((balance_withFuel host n).execute hbodyClosed) hs run
  obtain ⟨restores, mirrors⟩ := Exec.mirrored_betweenTurns (mirror_watching host n) closed
  constructor
  · rintro ⟨same, -⟩
    rw [same]
    exact restores.not_gaveUp ht
  · intro whole
    exact (mirrors t _ ht (.inr ⟨continued, rfl⟩)).resolve_left whole

/-- A condition that calls a function of one statement. -/
theorem continue_spares_next_turn_single :
    let host : Host := fun _ => pure none
    let body : Stmt := .block [.continue 1] 1
    let loop : Stmt := .whileLoop (.call (.name "more" .operand 1) [] 1) body 1
    let more : List Stmt := [.return (some (.boolean false 1)) 1]
    let script : Script := ⟨[.function ⟨"more", [], more, 1, ⟨0, 0⟩, 1⟩, loop]⟩
    let s : State := { State.initial 200 with
      store := { Store.empty with cells := #[.function (.script [] more ⟨0, 0⟩) none] }
      globals := [Scope.empty.add "more" ⟨0⟩] }
    let t := s.raise .ofContinue
    script.Parsed ∧ loop.Among script.statements ∧ loop.body? = some body ∧ s.Sound ∧
      (Interp.withFuel host 20).execute body s = .ok () t ∧ t.flags.continuing = true ∧
      ¬ GaveUp (betweenTurns (Interp.watching host 20) loop t) ∧
      Twins (fun _ _ => True) (betweenTurns (Interp.withFuel host 20) loop t)
        (betweenTurns (Interp.withFuel host 20) loop (t.clear .ofContinue)) := by
  intro host body loop more script s t
  have parsed : script.Parsed := .inl ⟨⟨⟨[], "/"⟩, [], []⟩, 0, none,
    "function more() \x7b return false; \x7d while (more()) \x7b continue; \x7d", by cbv⟩
  have among : loop.Among script.statements := .later .here
  have sound : s.Sound := by
    refine ⟨fun v hv => ?_, fun scope hscope => ?_, by simp [s]⟩
    · simp only [s, List.mem_toArray, List.mem_singleton] at hv
      subst hv
      rfl
    · simp only [s, List.mem_singleton] at hscope
      subst hscope
      simp [Scope.empty, Scope.add, Bindings.empty]
  have run : (Interp.withFuel host 20).execute body s = .ok () t := rfl
  have whole : ¬ GaveUp (betweenTurns (Interp.watching host 20) loop t) := id
  exact ⟨parsed, among, rfl, sound, run, rfl, whole,
    ((continue_spares_next_turn_iff host 20 parsed among rfl sound run rfl).2 whole).2⟩

/-- `n = n + 1; return n < 3;` -/
def countUp : List Stmt :=
  [.assign (.name "n" .location 1) (.arithmetic .add (.name "n" .operand 1) (.integer 1 1) 1) 1,
    .return (some (.relational .less (.name "n" .operand 1) (.integer 3 1) 1)) 1]

/-- `while (more()) { continue; }` -/
def countingLoop : Stmt :=
  .whileLoop (.call (.name "more" .operand 1) [] 1) (.block [.continue 1] 1) 1

/-- A loop whose condition counts a global name up. -/
def countingScript : Script :=
  ⟨[.assign (.name "n" .location 1) (.integer 0 1) 1, .function ⟨"more", [], countUp, 1, ⟨0, 0⟩, 1⟩,
    countingLoop, .return (some (.name "n" .operand 1)) 1]⟩

/-- The names that are bound where the loop is reached: the function, and `n` with its first
value. -/
def countingState : State :=
  { State.initial 200 with
    store := { Store.empty with cells := #[.function (.script [] countUp ⟨0, 0⟩) none, .integer 0] }
    globals := [(Scope.empty.add "more" ⟨0⟩).add "n" ⟨1⟩] }

/-- A function of two statements that a condition calls is cut short after the first one, and the
condition has no truth value. With the flag down it has. -/
theorem continue_cuts_condition_short :
    let interp := Interp.withFuel (fun _ => pure none) 20
    let watching := Interp.watching (fun _ => pure none) 20
    let t := countingState.raise .ofContinue
    countingScript.Parsed ∧ countingLoop.Among countingScript.statements ∧ countingState.Sound ∧
      countingState.flags = .none ∧
      (∃ body, countingLoop.body? = some body ∧ interp.execute body countingState = .ok () t) ∧
      GaveUp (betweenTurns watching countingLoop t) ∧
      Exec.failure? (betweenTurns interp countingLoop t) =
        some (.script .booleanExpected (some 1)) ∧
      Exec.result? (betweenTurns interp countingLoop (t.clear .ofContinue)) = some true := by
  have parsed : countingScript.Parsed := .inl ⟨⟨⟨[], "/"⟩, [], []⟩, 0, none,
    "n = 0; function more() \x7b n = n + 1; return n < 3; \x7d while (more()) \x7b continue; \x7d return n;",
    by cbv⟩
  have sound : countingState.Sound := by
    refine ⟨fun v hv => ?_, fun scope hscope => ?_, by simp [countingState]⟩
    · simp only [countingState, List.mem_toArray, List.mem_cons, List.not_mem_nil, or_false] at hv
      rcases hv with rfl | rfl
      · rfl
      · trivial
    · simp only [countingState, List.mem_singleton] at hscope
      subst hscope
      simp [Scope.empty, Scope.add, Bindings.empty]
  exact ⟨parsed, .later (.later .here), sound, rfl, ⟨_, rfl, rfl⟩, by decide +kernel,
    by decide +kernel, by decide +kernel⟩

end CellScript
