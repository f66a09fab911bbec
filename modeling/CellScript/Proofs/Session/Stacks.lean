import Mathlib
import CellScript.Proofs.Balance
import CellScript.Proofs.Conversion.Nested
import CellScript.Proofs.Session.Reachable

/-!
# Stacks between and during runs

Between the requests of a host no script runs: `State.Idle` says that there is then no local scope,
no object being realized and no active call. Every request keeps this, so it holds of all reachable
sessions, whose states are sound as well. During a run every node of a script restores the stacks
that it found (`Proofs.Balance`). `Session.stacks_restored` puts both together.
-/

namespace CellScript

/-- A sound state in which nothing runs. -/
structure State.Idle (s : State) : Prop where
  sound : s.Sound
  locals : s.locals = []
  instants : s.instants = []
  callDepth : s.callDepth = 0

namespace Exec

variable {α : Type} {l : Flags} {Q : α → Prop}

theorem idle_of_balanced {s t : State} (hs : s.Idle) (ht : t.Sound) (hb : s.Balanced t) :
    t.Idle := by
  refine ⟨ht, ?_, hb.instants.trans hs.instants, hb.callDepth.trans hs.callDepth⟩
  have hl := hb.locals
  rw [hs.locals] at hl
  exact hl.of_nil

theorem Restores.keeps_idle {x : Exec α} (h : Restores l Q x) : Keeps State.Idle x := fun s hs =>
  (h s hs.sound).mono (fun _ _ ⟨_, ht, hb, _⟩ => idle_of_balanced hs ht hb)
    fun _ _ ⟨_, ht, hb, _⟩ => idle_of_balanced hs ht hb

/-! ## Host requests as steps -/

/-- The frames are put back after a run, which restores everything else. -/
theorem Restores.withFrames {x : Exec α} (hx : Restores l Q x) {s : State} (hs : s.Idle) :
    (withFrames x).Ends s (fun a t => Q a ∧ t.Idle ∧ s.Completed l t)
      fun f t => f ≠ .emptyStack ∧ t.Idle := by
  unfold Exec.withFrames
  rw [ends_get_bind]
  dsimp only
  split
  · exact ⟨by simp, hs⟩
  · split
    · exact ⟨by simp, hs⟩
    · rw [ends_modify_bind]
      have framed (n : Nat) {t : State} (ht : t.Idle) : State.Idle { t with frames := n } :=
        ⟨⟨ht.sound.cells, ht.sound.types, ht.sound.globals⟩, ht.locals, ht.instants, ht.callDepth⟩
      refine Ends.ensuring ((hx _ (framed _ hs).sound).mono ?_ ?_)
      · rintro a t ⟨ha, ht, hb, hc⟩
        exact ⟨ha, framed _ (idle_of_balanced (framed _ hs) ht hb),
          ⟨hc.length, hc.below, hc.returns, hc.flags⟩⟩
      · rintro f t ⟨hf, ht, hb, -⟩
        exact ⟨hf, framed _ (idle_of_balanced (framed _ hs) ht hb)⟩

theorem overrun_ne_emptyStack {line : Option Nat} {f : Failure} (hf : f ≠ .emptyStack) :
    overrun line f ≠ .emptyStack := by
  unfold overrun
  split
  · simp
  · exact hf

/-- A description fails for want of frames or of a number. -/
theorem describe_error {s : Store} {c : Cell} {frames : Nat} {f : Failure}
    (h : s.describeIn frames c = .error f) : f = .exhausted ∨ ∃ g, f = .number g := by
  unfold Store.describeIn at h
  cases ht : s.plainText (Store.depthIn frames) c with
  | ok t =>
    rw [ht] at h
    cases h
  | error g =>
    rw [ht] at h
    cases h
    exact Store.plainText_error_cases ht

theorem describe_ne_emptyStack {s : Store} {c : Cell} {frames : Nat} {f : Failure}
    (h : s.describeIn frames c = .error f) : f ≠ .emptyStack := by
  rcases describe_error h with rfl | ⟨g, rfl⟩
  · simp
  · simp

theorem overrun_ends {x : Exec α} {s : State} {P : α → State → Prop} {E : State → Prop}
    (h : x.Ends s P fun f t => f ≠ .emptyStack ∧ E t) :
    (mapFailure (overrun none) x).Ends s P fun f t => f ≠ .emptyStack ∧ E t :=
  Ends.mapFailure (h.mono (fun _ _ h => h) fun _ _ ⟨hf, ht⟩ => ⟨overrun_ne_emptyStack hf, ht⟩)

/-- A state with nothing left of a run. -/
def Cleared (t : State) : Prop := t.Idle ∧ t.returns = [] ∧ t.flags = .none

theorem idle_reset {s : State} (hs : s.Sound) : s.reset.Idle :=
  ⟨⟨hs.cells, hs.types, hs.globals⟩, rfl, rfl, rfl⟩

/-- The description of a result is logged, or fails, without a change of anything else. -/
theorem report_ends {s : State} (hs : Cleared s) (c : Cell) :
    (report c).Ends s (fun _ t => Cleared t) fun f t => f ≠ .emptyStack ∧ t.Idle := by
  unfold report
  rw [ends_get_bind]
  split
  · rw [ends_get_bind]
    split
    · next text _ =>
      have logged := Restores.trace (l := .none) "velox.interpreter"
        s!"script finished with {text}" s hs.1.sound
      refine logged.mono ?_ ?_
      · rintro _ t ⟨-, ht, hb, hc⟩
        refine ⟨idle_of_balanced hs.1 ht hb, (hc.returns rfl).trans hs.2.1, ?_⟩
        have hf := hc.flags
        rw [hs.2.2] at hf
        exact Flags.eq_none_of_below hf
      · rintro f t ⟨hf, ht, hb, -⟩
        exact ⟨hf, idle_of_balanced hs.1 ht hb⟩
    · next h => exact ⟨describe_ne_emptyStack h, hs.1⟩
  · exact hs

/-- A completed run leaves nothing behind, and a failed one only result slots and flags. -/
theorem runScript_ends (host : Host) (n : Nat) {script : Script}
    (hscript : Stmt.closedAll false script.statements = true) {s : State} (hs : s.Idle) :
    (runScript (Interp.withFuel host n) script).Ends s (fun _ t => Cleared t)
      fun f t => f ≠ .emptyStack ∧ t.Idle := by
  have program : Restores .ofReturn (fun _ => True) (do
      prepareAll script.statements
      (Interp.withFuel host n).run script.statements) :=
    (balance_withFuel host n).prepareAndRun hscript
  -- A step that restores, as far as the slots go.
  have quiet {α : Type} {l : Flags} {x : Exec α} (hx : Restores l (fun _ => True) x) {t : State}
      (ht : t.Idle) : x.Ends t (fun _ u => u.Idle ∧ u.returns.length = t.returns.length)
        fun f u => f ≠ .emptyStack ∧ u.Idle :=
    (hx t ht.sound).mono (fun _ _ ⟨_, hu, hb, hc⟩ => ⟨idle_of_balanced ht hu hb, hc.length⟩)
      fun _ _ ⟨hf, hu, hb, _⟩ => ⟨hf, idle_of_balanced ht hu hb⟩
  unfold runScript beginScript endScript
  simp only [bind_assoc]
  rw [ends_modify_bind]
  refine Ends.bind (quiet (Restores.newCell (l := .none) (v := .undefined) trivial)
    (idle_reset hs.sound)) fun c t ⟨ht, hr⟩ => ?_
  unfold pushReturn
  rw [ends_modify_bind, ends_get_bind]
  have pushed : State.Idle { t with returns := c :: t.returns } :=
    ⟨⟨ht.sound.cells, ht.sound.types, ht.sound.globals⟩, ht.locals, ht.instants, ht.callDepth⟩
  refine Ends.bind (quiet (Restores.trace (l := .none) _ _) pushed) fun _ u ⟨hu, hur⟩ => ?_
  refine Ends.bind (overrun_ends ((program.withFrames hu))) fun _ v ⟨_, hv, hvr⟩ => ?_
  -- One slot is left, and the result is in it.
  have hlen : v.returns.length = 1 := by
    rw [hvr.length, hur, List.length_cons, hr]
    rfl
  obtain ⟨d, hd⟩ := List.length_eq_one_iff.1 hlen
  unfold popReturn
  simp only [bind_assoc, ends_get_bind, hd, ends_set_bind, pure_bind, ends_modify_bind]
  have cleared : Cleared { v with returns := [], flags := .none } :=
    ⟨⟨⟨hv.sound.cells, hv.sound.types, hv.sound.globals⟩, hv.locals, hv.instants, hv.callDepth⟩,
      rfl, rfl⟩
  exact (report_ends cleared d).bind fun _ t ht => ht

/-- A completed call from outside leaves nothing behind, and a failed one only result slots and
flags. What is no function is not called. -/
theorem callFromHost_ends (host : Host) (n : Nat) (c : Cell) (args : List Cell) {s : State}
    (hs : s.Idle) :
    (callFromHost (Interp.withFuel host n) c args).Ends s (fun _ t => Cleared t)
      fun f t => f ≠ .emptyStack ∧ t.Idle := by
  unfold callFromHost
  rw [ends_value_bind]
  cases hv : s.store.get c with
  | function f owner =>
    have hf : f.closed = true := by
      have closed := hs.sound.value c
      rwa [hv] at closed
    have call :
        Restores .none (fun _ => True) ((Interp.withFuel host n).invoke f owner args none) :=
      (balance_withFuel host n).invoke owner args none hf
    dsimp only
    rw [ends_modify_bind]
    refine (overrun_ends (call.withFrames (idle_reset hs.sound))).mono ?_ fun _ _ h => h
    rintro c t ⟨-, ht, hc⟩
    exact ⟨ht, hc.returns rfl, Flags.eq_none_of_below hc.flags⟩
  | _ => exact ⟨by simp, hs⟩

/-! ## New names and types -/

theorem Restores.defineGlobal (name : String) {v : Value} (hv : v.Closed) :
    Restores l (fun _ => True) (defineGlobal name v) :=
  (newCell hv).bind fun _ _ => addGlobal name _ none

theorem Restores.defineFunction (name : String) (f : Builtin) :
    Restores l (fun _ => True) (defineFunction name (.builtin f)) :=
  (trace _ _).bind fun _ _ => defineGlobal (v := .function (.builtin f) none) name rfl

theorem Restores.defineType {t : ObjectType} (ht : t.Closed) :
    Restores l (fun _ => True) (defineType t) :=
  (trace _ _).bind fun _ _ => addType t.name none ht

theorem closed_standardConstants {x : String × Value} (h : x ∈ standardConstants) :
    x.2.Closed := by
  simp only [standardConstants, List.mem_cons, List.not_mem_nil, or_false] at h
  rcases h with rfl | rfl | rfl | rfl | rfl | rfl <;> exact trivial

/-- The standard names are bound one by one. -/
theorem installLibrary_related (L : Congruence)
    (hg : ∀ x ∈ standardConstants, L.Holds (defineGlobal x.1 x.2) (defineGlobal x.1 x.2))
    (hf : ∀ f : Builtin, L.Holds (defineFunction f.name (.builtin f))
      (defineFunction f.name (.builtin f))) :
    L.Holds installLibrary installLibrary := by
  have constants := L.forIn standardConstants
    (f := fun x => defineGlobal x.1 x.2) (g := fun x => defineGlobal x.1 x.2) hg
  have functions := L.forIn Builtin.all
    (f := fun f => defineFunction f.name (.builtin f))
    (g := fun f => defineFunction f.name (.builtin f)) fun f _ => hf f
  unfold installLibrary
  exact constants.bind fun _ => functions.bind fun _ => L.holds_pure _

theorem Restores.installLibrary : Restores .none (fun _ => True) installLibrary :=
  installLibrary_related balance
    (fun x hx => Restores.defineGlobal x.1 (closed_standardConstants hx))
    fun f => Restores.defineFunction f.name f

theorem idle_restart {s : State} (hs : ∀ v ∈ s.store.cells, v.Closed) : s.restart.Idle :=
  ⟨⟨hs, by simp [State.restart, Scope.empty, Bindings.empty], by simp [State.restart]⟩, rfl, rfl,
    rfl⟩

/-- A session begins anew with what the standard names keep. -/
theorem freshContext_ends {I : State → Prop} (hlibrary : Keeps I installLibrary)
    (standardLibrary : Bool) {s : State} (hs : I s.restart) :
    (freshContext standardLibrary).Ends s (fun _ t => I t) fun _ t => I t := by
  unfold freshContext
  rw [ends_modify_bind]
  split
  · exact hlibrary _ hs
  · exact hs

theorem popGlobal_eq {s : State} {top : Scope} {below : List Scope}
    (hg : s.globals = top :: below) : popGlobal s = .ok () { s with globals := below } := by
  unfold popGlobal
  rw [get_bind_apply, hg]
  rfl

theorem popGlobal_of_nil {s : State} (hg : s.globals = []) :
    popGlobal s = .error .emptyStack s := by
  unfold popGlobal
  rw [get_bind_apply, hg]
  rfl

end Exec

namespace HostItem

variable {l : Flags}

mutual

theorem restores_make : ∀ {item : HostItem}, item.Closed →
    Exec.Restores l (fun _ => True) item.make
  | .undefined, _ | .boolean _, _ | .integer _, _ | .string _, _ => by
    unfold make
    exact Exec.Restores.newCell trivial
  | .real x, _ => by
    unfold make
    exact (balance.newReal x).weaken
  | .color c, _ => by
    unfold make
    exact (balance.newColor c).weaken
  | .vector v, _ => by
    unfold make
    exact (balance.newVector v).weaken
  | .list items, h => by
    unfold make
    exact (restores_makeAll (by simpa [Closed] using h)).bind fun _ _ =>
      Exec.Restores.bind (P := fun _ => True) (Exec.Restores.allocate fun _ hs => ⟨trivial, hs⟩)
        fun _ _ => Exec.Restores.newCell trivial
  | .function f, _ => by
    unfold make
    exact Exec.Restores.newCell (v := .function (.builtin f) none) rfl
  | .object t, h => by
    unfold make
    have ht : t.Closed := by simpa [Closed] using h
    exact (balance.newObject t ht).weaken
  | .objectType t, h => by
    unfold make
    have ht : t.Closed := by simpa [Closed] using h
    exact Exec.Restores.newCell (v := .objectType t) ht

theorem restores_makeAll : ∀ {items : List HostItem}, AllClosed items →
    Exec.Restores l (fun _ => True) (makeAll items)
  | [], _ => by
    unfold makeAll
    exact Exec.Restores.pure trivial
  | item :: items, h => by
    unfold makeAll
    simp only [AllClosed] at h
    exact (restores_make h.1).bind fun _ _ => (restores_makeAll h.2).bind fun _ _ =>
      Exec.Restores.pure trivial

end

end HostItem

namespace Session

/-- Nothing runs in a session between requests. -/
theorem idle_invariant (host : Host) (only : Request → Prop) :
    Invariant host only State.Idle where
  create maxCallDepth standardLibrary tracing sources := by
    rw [state_create]
    exact (Exec.freshContext_ends Exec.Restores.installLibrary.keeps_idle standardLibrary
      (Exec.idle_restart (by simp [State.initial, Store.empty]))).final
  fresh standardLibrary s hs := Exec.freshContext_ends Exec.Restores.installLibrary.keeps_idle
    standardLibrary (Exec.idle_restart hs.sound.cells)
  trace logger message := (Exec.Restores.trace (l := .none) logger message).keeps_idle
  runScript script h s hs :=
    (Exec.runScript_ends host fuel h hs).mono (fun _ _ ht => ht.1) fun _ _ ht => ht.2
  callFromHost c args s hs :=
    (Exec.callFromHost_ends host fuel c args hs).mono (fun _ _ ht => ht.1) fun _ _ ht => ht.2
  text c := Exec.Restores.keeps_idle (l := .none) ((balance_withFuel host fuel).fullText c none)
  addItem name item h := Exec.Restores.keeps_idle (l := .none)
    ((HostItem.restores_make h).bind fun c _ => Exec.Restores.addGlobal name c none)
  addCell name c _ := (Exec.Restores.addGlobal (l := .none) name c none).keeps_idle
  addFunction name f := (Exec.Restores.defineFunction (l := .none) name f).keeps_idle
  addType t h := (Exec.Restores.defineType (l := .none) h).keeps_idle
  frames n s hs :=
    ⟨⟨hs.sound.cells, hs.sound.types, hs.sound.globals⟩, hs.locals, hs.instants, hs.callDepth⟩
  pushGlobal s hs := by
    refine ⟨⟨hs.sound.cells, ?_, by simp [State.pushGlobal]⟩, hs.locals, hs.instants, hs.callDepth⟩
    intro scope hscope
    rcases List.mem_cons.1 hscope with rfl | hscope
    · simp [Scope.empty, Bindings.empty]
    · exact hs.sound.types scope hscope
  popGlobal s hs hlen := by
    obtain ⟨top, below, hg⟩ : ∃ top below, s.globals = top :: below :=
      List.exists_cons_of_ne_nil hs.sound.globals
    rw [Exec.popGlobal_eq hg]
    refine ⟨⟨hs.sound.cells, fun scope hscope => hs.sound.types scope ?_, ?_⟩, hs.locals,
      hs.instants, hs.callDepth⟩
    · exact hg ▸ List.mem_cons_of_mem _ hscope
    · rintro rfl
      simp [hg] at hlen

/-! ## The stacks of runs -/

end Session

/-- Where a node that was begun in `s` may end. -/
def State.Restored (s : State) {α : Type} : EStateM.Result Failure State α → Prop
  | .ok _ t => s.Balanced t ∧ t.returns.length = s.returns.length ∧
      t.returns.tail = s.returns.tail
  | .error f t => f ≠ .emptyStack ∧ s.Balanced t ∧ s.returns.length ≤ t.returns.length

theorem Exec.Restores.restored {α : Type} {l : Flags} {Q : α → Prop} {x : Exec α}
    (h : Restores l Q x) {s : State} (hs : s.Sound) : s.Restored (x s) := by
  have ends := h s hs
  unfold Exec.Ends at ends
  cases hx : x s with
  | ok a t =>
    simp only [hx] at ends
    exact ⟨ends.2.2.1, ends.2.2.2.length, ends.2.2.2.below⟩
  | error f t =>
    simp only [hx] at ends
    exact ⟨ends.1, ends.2.2⟩

namespace Session

/-- Where a run or a call that a host asked for may end. -/
def Settled {α : Type} : EStateM.Result SessionFailure Session α → Prop
  | .ok _ t => t.state.Idle ∧ t.state.returns = [] ∧ t.state.flags = .none
  | .error f t => f ≠ .run .emptyStack ∧ t.state.Idle

theorem settled_lift {α : Type} {x : Exec α} {s : Session}
    (h : x.Ends s.state (fun _ t => Exec.Cleared t) fun f t => f ≠ .emptyStack ∧ t.Idle) :
    Settled (lift x s) := by
  unfold Exec.Ends at h
  unfold lift
  cases hx : x s.state with
  | ok a t =>
    simp only [hx] at h ⊢
    exact h
  | error f t =>
    simp only [hx] at h ⊢
    exact ⟨by simpa using h.1, h.2⟩

/-- Every expression and every statement of a parsed script leaves the stacks as it found them,
completed or failed, and meets no empty stack. Reachable sessions are idle and sound, and running a
script or calling a function leaves nothing behind but, if it fails, result slots and flags. -/
theorem stacks_restored (host : Host) (n : Nat) :
    (∀ s : State, s.Sound →
      (∀ e : Expr, s.Restored ((Interp.withFuel host n).evaluate e s)) ∧
      ∀ (script : Script) (st : Stmt), script.Parsed → st.Among script.statements →
        s.Restored ((Interp.withFuel host n).execute st s)) ∧
    ∀ session : Session, Reachable host (fun _ => True) session →
      session.state.Idle ∧
      (∀ script : Script, script.Parsed → Settled (execute host script session)) ∧
      (∀ (name : String) (args : List Cell), Settled (callNamed host name args session)) ∧
      ∀ (c : Cell) (args : List Cell), Settled (callCell host c args session) := by
  have agree := balance_withFuel host n
  refine ⟨fun s hs => ⟨fun e => ?_, fun script st hp hst => ?_⟩, fun session hr => ?_⟩
  · exact Exec.Restores.restored (l := .none) (agree.evaluate e) hs
  · obtain ⟨b, hb⟩ := hst.closed fun st h => ⟨false, Stmt.closedAll_iff.1 hp.closed st h⟩
    exact Exec.Restores.restored (agree.execute hb) hs
  · have idle := (idle_invariant host fun _ => True).reachable hr
    refine ⟨idle, fun script hp => ?_, fun name args => ?_, fun c args => ?_⟩
    · exact settled_lift (Exec.runScript_ends host fuel hp.closed idle)
    · refine settled_lift ?_
      rw [Exec.ends_get_bind]
      split
      · exact ⟨by simp, idle⟩
      · exact Exec.callFromHost_ends host fuel _ args idle
    · exact settled_lift (Exec.callFromHost_ends host fuel c args idle)

/-- A new session that runs a script with a `return` inside a block. -/
theorem stacks_restored_block :
    let host : Host := fun _ => pure none
    let session := create 200 true false ⟨⟨[], "/"⟩, [], []⟩
    let script : Script := ⟨[.block [.return none 1] 1]⟩
    script.Parsed ∧ Reachable host (fun _ => True) session ∧ session.state.Sound ∧
      session.state.Restored ((Interp.withFuel host 9).execute (.return none 1) session.state) ∧
      Settled (execute host script session) := by
  intro host session script
  have parsed : script.Parsed :=
    .inl ⟨⟨⟨[], "/"⟩, [], []⟩, 0, none, "\x7b return; \x7d", by cbv⟩
  have reached : Reachable host (fun _ => True) session := .create _ _ _ _
  obtain ⟨nodes, sessions⟩ := stacks_restored host 9
  obtain ⟨idle, runs, -⟩ := sessions session reached
  exact ⟨parsed, reached, idle.sound, (nodes _ idle.sound).2 script _ parsed (.block .here),
    runs script parsed⟩

end Session

end CellScript
