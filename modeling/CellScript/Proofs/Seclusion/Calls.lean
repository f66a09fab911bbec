import CellScript.Proofs.Seclusion.Steps

/-!
# Calls do not see the local scopes of their caller

A call puts up a wall, runs inside of it and takes it down again. So it does the same whatever local
scopes and result slots its caller has, and leaves them alone.

* `seclusion`: what runs inside of a call is secluded, as a congruence;
* `apart_callCell`: a call is a step apart;
* `Exec.SameEffect`: what two runs of a step from two states have in common.
-/

namespace CellScript

namespace Exec

variable {α β : Type}

/-! ## Whole calls -/

namespace Apart

variable {l : Flags} {P Q : α → Prop}

theorem secluded {x : Exec α} (h : Apart Q x) : Secluded l Q x := fun s base hs =>
  ⟨(h s base hs.closed).1, (h s base hs.closed).2.mono (fun _ _ ⟨ha, _, ht⟩ => ⟨ha, ht⟩)
    fun _ _ h => h.2⟩

theorem throw (f : Failure) : Apart Q (throw f : Exec α) := fun s _ _ => ⟨rfl, rfl, .refl s⟩

theorem bind {R : β → Prop} {x : Exec α} {f : α → Exec β} (hx : Apart P x)
    (hf : ∀ a, P a → Apart R (f a)) : Apart R (x >>= f) := by
  intro s base hs
  obtain ⟨habove, hends⟩ := hx s base hs
  refine ⟨above_bind habove hends fun a t ⟨ha, _, ht⟩ => (hf a ha t base ht.closed).1, ?_⟩
  refine Ends.bind hends fun a t ⟨ha, hl, ht⟩ => ((hf a ha t base ht.closed).2).mono ?_ ?_
  · rintro b u ⟨hb, hl', hu⟩
    exact ⟨hb, hl'.trans hl, ht.trans hu⟩
  · rintro e u ⟨hl', hu⟩
    exact ⟨hl'.trans hl, ht.toLevel.trans hu⟩

theorem enterCall (line : Option Nat) : Apart (fun _ => True) (enterCall line) := by
  intro s base hs
  refine ⟨above_get ?_, ?_⟩
  · have depth : (s.above base).callDepth = s.callDepth := rfl
    have limit : (s.above base).maxCallDepth = s.maxCallDepth := rfl
    rw [depth, limit]
    dsimp only
    split <;> rfl
  · refine .enterCall (fun _ => ?_) fun _ => ⟨rfl, .refl s⟩
    exact ⟨trivial, rfl, ⟨.refl _, rfl⟩, ⟨hs.cells, hs.types⟩, rfl⟩

theorem leaveCall_eq {t : State} {pushed below : List Frame} (h : t.locals = pushed ++ below) :
    leaveCall below.length t = .ok () { t with locals := below, callDepth := t.callDepth - 1 } := by
  have dropped : t.locals.drop (t.locals.length - below.length) = below := by
    rw [h, List.length_append, Nat.add_sub_cancel, List.drop_left]
  change EStateM.Result.ok () { t with
    locals := t.locals.drop (t.locals.length - below.length), callDepth := t.callDepth - 1 } = _
  rw [dropped]

/-- A call puts up a wall of its own: it begins with a scope that does not see the one below. -/
theorem inCall {x : Exec Cell} (parameters : List String) (owner : Option ObjectRef)
    (args : List Cell) (line : Option Nat) (hx : Secluded .none (fun _ => True) x) :
    Apart (fun _ => True) (inCall parameters owner args line x) := by
  refine ((Confined.ownerScope owner).apart (Restores.ownerScope (l := .none) owner)).bind
    fun members _ => ((Confined.argumentScope parameters args line).apart
      (Restores.argumentScope (l := .none) parameters args line)).bind fun scope _ =>
        (enterCall line).bind fun _ _ => ?_
  intro s base hs
  let u := s.pushCall scope members
  have hu : u.Inside .none := by
    cases members with
    | none => exact ⟨⟨hs.cells, hs.types⟩, ⟨⟨scope, false⟩, List.mem_cons_self, rfl⟩, nofun⟩
    | some a =>
      exact ⟨⟨hs.cells, hs.types⟩,
        ⟨⟨scope, false⟩, List.mem_cons_of_mem _ List.mem_cons_self, rfl⟩, nofun⟩
  have pushed {t : State} (ht : u.Level t) : ∃ pushed, t.locals = pushed ++ s.locals := by
    cases members with
    | none =>
      obtain ⟨g, hg⟩ := ht.locals.of_cons
      exact ⟨[g], hg⟩
    | some a =>
      obtain ⟨g, hg⟩ := ht.locals.of_cons
      exact ⟨[g, ⟨scope, false⟩], hg⟩
  have left {t : State} (ht : u.Level t) :
      leaveCall (s.above base).locals.length (t.above base) =
        above base (leaveCall s.locals.length t) := by
    obtain ⟨pushed, hp⟩ := pushed ht
    have hp' : (t.above base).locals = pushed ++ (s.above base).locals := by simp [State.above, hp]
    rw [leaveCall_eq hp, leaveCall_eq hp']
    rfl
  have habove : (s.above base).pushCall scope members = u.above base := by cases members <;> rfl
  have returns : u.returns = s.returns := by cases members <;> rfl
  have instants : u.instants = s.instants := by cases members <;> rfl
  obtain ⟨hx, hends⟩ := hx.mapFailure (overrun line) u base hu
  change ensuring (mapFailure (overrun line) x) (leaveCall (s.above base).locals.length)
      ((s.above base).pushCall scope members) =
      above base (ensuring (mapFailure (overrun line) x) (leaveCall s.locals.length) u) ∧
    Ends (ensuring (mapFailure (overrun line) x) (leaveCall s.locals.length)) u _ _
  refine ⟨?_, Ends.ensuring (hends.mono ?_ ?_)⟩
  · rw [habove]
    exact above_ensuring hx hends (fun _ _ h => left h.2.toLevel) fun _ _ h => left h
  · rintro a t ⟨-, ht⟩
    obtain ⟨pushed, hp⟩ := pushed ht.toLevel
    unfold Ends
    rw [leaveCall_eq hp]
    exact ⟨trivial, rfl, ⟨.refl _, ht.instants.trans instants⟩,
      ⟨ht.closed.cells, ht.closed.types⟩, ht.returns.trans (by rw [returns])⟩
  · intro f t ht
    obtain ⟨pushed, hp⟩ := pushed ht
    unfold Ends
    rw [leaveCall_eq hp]
    exact ⟨rfl, .refl _, ht.instants.trans instants⟩

end Apart

end Exec

/-! ## The congruence -/

open Exec (Confined Restores Secluded Apart)

/-- Seclusion is a congruence. -/
def seclusion : Congruence where
  Rel l _ Q x _ := Secluded l Q x
  pure := Secluded.pure
  bind := Secluded.bind
  mono := Secluded.mono
  throw f _ := Secluded.throw f
  located _ := Secluded.mapFailure _
  storage := Secluded.storage
  frames := Secluded.read (fun _ _ _ => rfl) fun _ _ => trivial
  value := Secluded.value
  find? := Secluded.find?
  findType? := Secluded.findType?
  newCell _ := Secluded.newCell
  allocate f h := (Confined.allocate f).secluded
    (Restores.allocate fun s hs => ⟨trivial, (h s).cells ▸ hs⟩)
  store c v line hv := (Confined.store c v line).secluded (Restores.store c line hv)
  copyCell c := (Confined.copyCell c).secluded (Restores.copyCell c)
  append r c := (Confined.append r c).secluded (Restores.append r c)
  evaluateList es := Secluded.evaluateList es
  makeObject t ht := (Confined.makeObject t).secluded (Restores.makeObject ht)
  newMember owner name line :=
    (Confined.newMember owner name line).secluded (Restores.newMember owner name line)
  newName := Secluded.newName
  declareFunction _ := Secluded.declareFunction
  addType name _ line := Secluded.addType name line
  declareGlobal := Secluded.declareGlobal
  addAnonymous := Secluded.addAnonymous
  print _ := Secluded.update (fun _ _ _ => rfl)
    fun _ hs => ⟨⟨.refl _, rfl⟩, ⟨hs.closed.cells, hs.closed.types⟩, rfl⟩
  log _ _ _ := Secluded.update (fun _ _ _ => rfl)
    fun _ hs => ⟨⟨.refl _, rfl⟩, ⟨hs.closed.cells, hs.closed.types⟩, rfl⟩
  randomBetween _ _ := fun _ _ hs =>
    ⟨rfl, trivial, ⟨.refl _, rfl⟩, ⟨hs.closed.cells, hs.closed.types⟩, rfl⟩
  raise f := Secluded.raise f
  setReturn := Secluded.setReturn
  takeResult := Secluded.takeResult
  inCall parameters owner args line h := (Apart.inCall parameters owner args line h).secluded
  inBlock := Secluded.inBlock
  loopBefore := Secluded.loopBefore
  loopAfter := Secluded.loopAfter
  fillObject := Secluded.fillObject

/-- All that the interpreter of the language does inside of a call is secluded. -/
theorem seclusion_withFuel (host : Host) (n : Nat) :
    seclusion.Agree (Interp.withFuel host n) (Interp.withFuel host n) := by
  rw [Interp.withFuel_eq_tied]
  refine seclusion.agree_tied (fun {f _ inLoop _} hf hss => ?_) host n
  have each : ∀ st ∈ _, Secluded (.within inLoop) (fun _ => True) (f st) :=
    fun st hst => hf (Stmt.closedAll_iff.1 hss st hst)
  exact Secluded.runAll each

/-- Calling a function is a step apart. -/
theorem apart_invoke (host : Host) (n : Nat) {f : Callable} (hf : f.closed = true)
    (owner : Option ObjectRef) (args : List Cell) (line : Option Nat) :
    Apart (fun _ => True) ((Interp.withFuel host n).invoke f owner args line) := by
  cases n with
  | zero => exact Apart.throw _
  | succ n =>
    exact Apart.inCall _ _ _ _ ((seclusion_withFuel host n).runCallable host line hf)

/-- Calling what a cell holds is a step apart. -/
theorem apart_callCell (host : Host) (n : Nat) (c : Cell) (args : List Cell) (line : Option Nat) :
    Apart (fun _ => True) (Exec.callCell (Interp.withFuel host n) c args line) := by
  refine ((Confined.value c).apart (Restores.value (l := .none) c)).bind fun v hv => ?_
  split
  · exact apart_invoke host n hv _ _ _
  · exact Apart.throw _

/-! ## Two callers -/

/-- The two states have everything in common but local scopes, result slots, output and the source
of random numbers. -/
structure State.AgreesWith (s t : State) : Prop where
  store : t.store = s.store
  globals : t.globals = s.globals
  flags : t.flags = s.flags
  instants : t.instants = s.instants
  callDepth : t.callDepth = s.callDepth
  maxCallDepth : t.maxCallDepth = s.maxCallDepth
  frames : t.frames = s.frames

theorem State.AgreesWith.above_core {s t : State} (h : s.AgreesWith t) (hr : t.random = s.random) :
    s.core.above t = t := by
  obtain ⟨store, globals, _, _, flags, instants, callDepth, maxCallDepth, frames⟩ := t
  obtain ⟨rfl, rfl, rfl, rfl, rfl, rfl, rfl⟩ := h
  cases hr
  rfl

namespace Exec

variable {α : Type}

/-- An outcome with another source of random numbers. -/
def withRandom (g : StdGen) : EStateM.Result Failure State α → EStateM.Result Failure State α
  | .ok a t => .ok a { t with random := g }
  | .error f t => .error f { t with random := g }

/-- Begun in the state, the step neither looks at the source of random numbers nor moves it. -/
def DrawsNothing (x : Exec α) (s : State) : Prop :=
  ∀ g, x { s with random := g } = withRandom g (x s)

/-- Begun in either of two states, the step ends in the same way, has the same effects on the
storage, the global scopes and the output, and leaves the local scopes as they were. -/
structure SameEffect (x : Exec α) (s t : State) : Prop where
  result : result? (x t) = result? (x s)
  failure : failure? (x t) = failure? (x s)
  store : (finalState (x t)).store = (finalState (x s)).store
  globals : (finalState (x t)).globals = (finalState (x s)).globals
  printed : ∃ new, (finalState (x s)).printed = new ++ s.printed ∧
    (finalState (x t)).printed = new ++ t.printed
  logged : ∃ new, (finalState (x s)).logged = new ++ s.logged ∧
    (finalState (x t)).logged = new ++ t.logged
  localsLeft : (finalState (x s)).locals = s.locals
  localsRight : (finalState (x t)).locals = t.locals

theorem result?_above (base : State) (r : EStateM.Result Failure State α) :
    result? (above base r) = result? r := by cases r <;> rfl

theorem failure?_above (base : State) (r : EStateM.Result Failure State α) :
    failure? (above base r) = failure? r := by cases r <;> rfl

theorem finalState_above (base : State) (r : EStateM.Result Failure State α) :
    finalState (above base r) = (finalState r).above base := by cases r <;> rfl

/-- Whatever does the same over any base has the same effect over two bases. -/
theorem Apart.sameEffect {Q : α → Prop} {x : Exec α} (h : Apart Q x) {s t : State} (hs : s.Closed)
    (hst : s.AgreesWith t) (hr : t.random = s.random) : SameEffect x s t := by
  have closed : s.core.Closed := ⟨hs.cells, hs.types⟩
  obtain ⟨here, ends⟩ := h s.core s closed
  obtain ⟨there, -⟩ := h s.core t closed
  rw [State.core_above] at here
  rw [hst.above_core hr] at there
  have final : finalState (x s) = (finalState (x s.core)).above s := by rw [here, finalState_above]
  have final' : finalState (x t) = (finalState (x s.core)).above t := by
    rw [there, finalState_above]
  have locals : (finalState (x s.core)).locals = [] :=
    (ends.mono (fun _ _ h => h.2.1) fun _ _ h => h.1).final (I := fun u => u.locals = [])
  refine ⟨?_, ?_, ?_, ?_, ⟨(finalState (x s.core)).printed, ?_, ?_⟩,
    ⟨(finalState (x s.core)).logged, ?_, ?_⟩, ?_, ?_⟩
  · rw [here, there, result?_above, result?_above]
  · rw [here, there, failure?_above, failure?_above]
  · rw [final, final']
    rfl
  · rw [final, final']
    rfl
  · rw [final]
    rfl
  · rw [final']
    rfl
  · rw [final]
    rfl
  · rw [final']
    rfl
  · rw [final]
    simp only [State.above, locals, List.nil_append]
  · rw [final']
    simp only [State.above, locals, List.nil_append]

theorem SameEffect.of_random {x : Exec α} {s t : State} (hx : DrawsNothing x s)
    (h : SameEffect x { s with random := t.random } t) : SameEffect x s t := by
  have same := hx t.random
  have result (r : EStateM.Result Failure State α) :
      result? (withRandom t.random r) = result? r := by cases r <;> rfl
  have failure (r : EStateM.Result Failure State α) :
      failure? (withRandom t.random r) = failure? r := by cases r <;> rfl
  have final (r : EStateM.Result Failure State α) :
      finalState (withRandom t.random r) = { finalState r with random := t.random } := by
    cases r <;> rfl
  obtain ⟨h₁, h₂, h₃, h₄, h₅, h₆, h₇, h₈⟩ := h
  rw [same] at h₁ h₂ h₃ h₄ h₅ h₆ h₇
  rw [result] at h₁
  rw [failure] at h₂
  rw [final] at h₃ h₄ h₅ h₆ h₇
  exact ⟨h₁, h₂, h₃, h₄, h₅, h₆, h₇, h₈⟩

/-- A call does the same and leaves the local scopes alone whatever local scopes and result slots
its caller has, and whatever was printed and logged before. The source of random numbers has to be
the same if the call draws from it. -/
theorem callCell_ignores_caller (host : Host) (n : Nat) (c : Cell) (args : List Cell)
    (line : Option Nat) {s t : State} (hs : s.Closed) (hst : s.AgreesWith t)
    (hr : t.random = s.random ∨ DrawsNothing (callCell (Interp.withFuel host n) c args line) s) :
    SameEffect (callCell (Interp.withFuel host n) c args line) s t := by
  have apart := apart_callCell host n c args line
  rcases hr with hr | hr
  · exact apart.sameEffect hs hst hr
  · refine .of_random hr (apart.sameEffect ⟨hs.cells, hs.types⟩ ?_ rfl)
    exact ⟨hst.store, hst.globals, hst.flags, hst.instants, hst.callDepth, hst.maxCallDepth,
      hst.frames⟩

/-- A function that reads a local name of its caller does not find it. -/
theorem callCell_ignores_caller_local :
    let x := callCell (Interp.withFuel (fun _ => throw .emptyStack) 5) ⟨0⟩ [] (some 2)
    let f : Callable := .script [] [.return (some (.name "secret" .operand 1)) 1] ⟨0, 0⟩
    let s : State := { State.initial 200 with
      store := (Store.empty.alloc (.function f none)).2, globals := [.empty] }
    let t : State := { s with
      locals := [⟨Scope.empty.add "secret" ⟨0⟩, false⟩], returns := [⟨0⟩] }
    SameEffect x s t ∧ failure? (x t) = some (.script (.unknownIdentifier "secret") (some 1)) := by
  refine ⟨callCell_ignores_caller _ _ _ _ _ ⟨?_, ?_⟩ ⟨rfl, rfl, rfl, rfl, rfl, rfl, rfl⟩
    (.inl rfl), ?_⟩
  · simp [Store.alloc, Store.empty, Value.Closed, Callable.closed, Stmt.closedAll, Stmt.closed]
  · simp [Scope.empty, Bindings.empty]
  · decide +kernel

end Exec

end CellScript
