import CellScript.Proofs.Depth.Steps
import CellScript.Proofs.Session.Stacks

/-!
# The limit on calls ends all recursion

Where programs have no loops and no texts, a run that goes on without end would have to make calls
within calls without end, and the limit on calls forbids that. However large the fuel is, once it is
large enough, scripts of this kind have the same outcome, and it is not a want of fuel.

The proof is an induction on two measures. Within a call, the size of the node falls from a node to
its parts; a call leads to a body of any size below a bound, but there is room for one call less
(`Exec.Finishes.inCall`).

* `finishing_tied`: interpreters with enough fuel do the same and come to an end;
* `Session.straight_scripts_end`: so do all sequences of scripts.
-/

namespace CellScript

namespace Exec.Finishes

variable {bound calls : Nat}

/-- A call takes one from the room for further calls and gives it back. Where there is no room, it
does not matter what would be called. -/
theorem activate {x y : Exec Cell} (scope : Scope) (members : Option Scope) (line : Option Nat)
    (h : ∀ fewer, calls = fewer + 1 → Finishes bound fewer (fun _ => True) x y) :
    Finishes bound calls (fun _ => True) (activate scope members line x)
      (activate scope members line y) := by
  have inside {s : State} (hs : s.Straight bound) (hr : s.RoomFor calls)
      (hlt : s.callDepth < s.maxCallDepth) :
      ∃ fewer, Finishes bound fewer (fun _ => True) x y ∧
        (s.entered scope members).Straight bound ∧ (s.entered scope members).RoomFor fewer ∧
        (s.entered scope members).callDepth = s.callDepth + 1 ∧
        (s.entered scope members).maxCallDepth = s.maxCallDepth := by
    unfold State.RoomFor at hr
    obtain ⟨fewer, rfl⟩ : ∃ fewer, calls = fewer + 1 := ⟨calls - 1, by omega⟩
    refine ⟨fewer, h fewer rfl, ?_⟩
    have depth : (s.entered scope members).callDepth = s.callDepth + 1 := by
      cases members <;> rfl
    have limit : (s.entered scope members).maxCallDepth = s.maxCallDepth := by
      cases members <;> rfl
    refine ⟨?_, ?_, depth, limit⟩
    · cases members <;> exact hs.congr rfl rfl
    · unfold State.RoomFor
      rw [depth, limit]
      omega
  refine ⟨fun s hs hr => ?_, fun s hs hr => ?_⟩
  · rcases Int.lt_or_le s.callDepth s.maxCallDepth with hlt | hle
    · obtain ⟨fewer, hx, hu, hroom, -⟩ := inside hs hr hlt
      rw [activate_of_lt hlt, activate_of_lt hlt]
      unfold Exec.ensuring
      rw [(hx.overrun line).same _ hu hroom]
    · rw [activate_of_le hle, activate_of_le hle]
  · rcases Int.lt_or_le s.callDepth s.maxCallDepth with hlt | hle
    · obtain ⟨fewer, hx, hu, hroom, depth, limit⟩ := inside hs hr hlt
      have left {t : State} (ht : (s.entered scope members).StraightFrom bound t) :
          s.StraightFrom bound
            { t.popLocalsTo s.locals.length with callDepth := t.callDepth - 1 } := by
        refine ⟨ht.straight.congr rfl rfl, ?_, ht.maxCallDepth.trans limit⟩
        change t.callDepth - 1 = s.callDepth
        rw [ht.callDepth, depth]
        omega
      unfold Ends
      rw [activate_of_lt hlt]
      refine Ends.ensuring (((hx.overrun line).ends _ hu hroom).mono ?_ ?_)
      · exact fun _ _ ⟨_, ht⟩ => ⟨trivial, left ht⟩
      · exact fun _ _ ⟨hf, ht⟩ => ⟨hf, left ht⟩
    · unfold Ends
      rw [activate_of_le hle]
      exact ⟨by simp, .refl hs⟩

theorem inCall {x y : Exec Cell} (parameters : List String) (owner : Option ObjectRef)
    (args : List Cell) (line : Option Nat)
    (h : ∀ fewer, calls = fewer + 1 → Finishes bound fewer (fun _ => True) x y) :
    Finishes bound calls (fun _ => True) (inCall parameters owner args line x)
      (inCall parameters owner args line y) :=
  (ending bound calls).inCall parameters owner args line fun scope members _ _ =>
    activate scope members line h

theorem runAll {f g : Stmt → Exec Unit} {ss : List Stmt}
    (h : ∀ st ∈ ss, Finishes bound calls (fun _ => True) (f st) (g st)) :
    Finishes bound calls (fun _ => True) (runAll f ss) (runAll g ss) := by
  induction ss with
  | nil => exact pure trivial
  | cons st ss ih =>
    refine (h st List.mem_cons_self).bind fun _ _ => choose fun s => ?_
    split
    · exact pure trivial
    · exact ih fun st hst => h st (List.mem_cons_of_mem _ hst)

end Exec.Finishes

/-! ## Interpreters with enough fuel -/

open Exec (Finishes)

/-- Without loops, a limit on their turns does not matter. -/
theorem Exec.executeWith_limit (m n : Nat) {self : Interp} {st : Stmt} (h : st.straight = true) :
    Exec.executeWith m self st = Exec.executeWith n self st := by
  cases st with
  | loop _ _ | whileLoop _ _ _ | doWhile _ _ _ | forLoop _ _ _ _ _ => simp [Stmt.straight] at h
  | _ => rfl

/-- Fuel that is enough for nodes of a size where there is room for a number of further calls. -/
def enoughFuel (bound calls size : Nat) : Nat := size + 1 + calls * (bound + 2)

theorem Expr.sizeOf_pos (e : Expr) : 0 < sizeOf e := by
  cases e <;> simp

theorem Stmt.sizeOf_pos (st : Stmt) : 0 < sizeOf st := by
  cases st <;> simp

/-- One more call: if bodies come to an end where there is room for one call less, then so do all
nodes, by the size of the node. -/
theorem finishing_of_fewer (host : Host) {bound calls : Nat}
    (fewer : ∀ k, calls = k + 1 → ∀ n m, enoughFuel bound k bound ≤ n →
      enoughFuel bound k bound ≤ m → (finishing bound k).AgreeOn (.straight bound)
        (Interp.tied Exec.runAll host n) (Interp.tied Exec.runAll host m))
    {size n m : Nat} (hsize : size ≤ bound) (hn : enoughFuel bound calls size ≤ n)
    (hm : enoughFuel bound calls size ≤ m) :
    (finishing bound calls).AgreeOn (.straight size) (Interp.tied Exec.runAll host n)
      (Interp.tied Exec.runAll host m) := by
  have calling {n m : Nat} (hn : enoughFuel bound calls 0 ≤ n + 1)
      (hm : enoughFuel bound calls 0 ≤ m + 1) {f : Callable} (owner : Option ObjectRef)
      (args : List Cell) (line : Option Nat) (hf : f.Straight bound) :
      Finishes bound calls (fun _ => True)
        (Exec.invokeWith host (Interp.tied Exec.runAll host n) f owner args line)
        (Exec.invokeWith host (Interp.tied Exec.runAll host m) f owner args line) := by
    refine Finishes.inCall _ _ _ _ fun k hk => ?_
    subst hk
    have room : enoughFuel bound (k + 1) 0 = enoughFuel bound k bound + 2 := by
      simp only [enoughFuel, Nat.add_mul]
      omega
    refine (fewer k rfl n m (by omega) (by omega)).runCallable line hf (fun name ps e => ?_) ?_
    · rw [e] at hf
      exact hf.elim
    rintro ps body id rfl
    exact ⟨Fragment.declaresAll_straight hf.straight hf.closed hf.size, hf.all⟩
  have positive (size : Nat) : enoughFuel bound calls size = enoughFuel bound calls 0 + size := by
    unfold enoughFuel
    omega
  have some_fuel : 0 < enoughFuel bound calls 0 := by
    unfold enoughFuel
    omega
  induction size generalizing n m with
  | zero =>
    obtain ⟨k, rfl⟩ : ∃ k, n = k + 1 := ⟨n - 1, by omega⟩
    obtain ⟨j, rfl⟩ : ∃ j, m = j + 1 := ⟨m - 1, by omega⟩
    exact {
      evaluate := fun {e} he => absurd he.2 (Nat.not_le.2 e.sizeOf_pos)
      execute := fun {_ st} hst => absurd hst.2.2 (Nat.not_le.2 st.sizeOf_pos)
      run := fun hss => Finishes.runAll fun st hst =>
        absurd (hss st hst).2.2 (Nat.not_le.2 st.sizeOf_pos)
      invoke := calling hn hm
      fullText := fun _ _ ht => ht.elim }
  | succ size ih =>
    have more := positive size
    have most := positive (size + 1)
    obtain ⟨k, rfl⟩ : ∃ k, n = k + 1 := ⟨n - 1, by omega⟩
    obtain ⟨j, rfl⟩ : ∃ j, m = j + 1 := ⟨m - 1, by omega⟩
    have parts := ih (n := k) (m := j) (by omega) (by omega) (by omega)
    have executed {inLoop : Bool} {st : Stmt}
        (hst : (Nodes.straight (size + 1)).stmt inLoop st) :
        Finishes bound calls (fun _ => True)
          (Exec.executeWith k (Interp.tied Exec.runAll host k) st)
          (Exec.executeWith j (Interp.tied Exec.runAll host j) st) := by
      rw [Exec.executeWith_limit j k hst.1]
      exact parts.executeWith k (Stmt.partsIn_straight (by omega) hst)
    exact {
      evaluate := fun he => parts.evaluateWith (Expr.partsIn_straight he)
      execute := executed
      run := fun hss => Finishes.runAll fun st hst => executed (hss st hst)
      invoke := calling (n := k) (m := j) (by omega) (by omega)
      fullText := fun _ _ ht => ht.elim }

/-- Interpreters with enough fuel do the same on straight programs, and come to an end. -/
theorem finishing_tied (host : Host) {bound calls size n m : Nat} (hsize : size ≤ bound)
    (hn : enoughFuel bound calls size ≤ n) (hm : enoughFuel bound calls size ≤ m) :
    (finishing bound calls).AgreeOn (.straight size) (Interp.tied Exec.runAll host n)
      (Interp.tied Exec.runAll host m) := by
  induction calls generalizing size n m with
  | zero => exact finishing_of_fewer host (fun k hk => by cases hk) hsize hn hm
  | succ calls ih =>
    refine finishing_of_fewer host (fun k hk n m hn hm => ?_) hsize hn hm
    cases hk
    exact ih (Nat.le_refl bound) hn hm

/-! ## Scripts -/

namespace Exec

/-- What is left of a run of a script when nothing is left of an earlier one. -/
def runFromRest (interp : Interp) (script : Script) : Exec Cell := do
  pushReturn (← newCell .undefined)
  trace "velox.interpreter" s!"executing script ({(← get).globals.length} global scope(s))"
  mapFailure (overrun none) <| withFrames do
    prepareAll script.statements
    interp.run script.statements
  endScript

theorem runScript_apply (interp : Interp) (script : Script) (s : State) :
    runScript interp script s = runFromRest interp script s.reset := rfl

/-- The outcomes of scripts that are run one after the other, each where the one before has
ended. -/
def outcomes (interp : Interp) : List Script → State → List (EStateM.Result Failure State Cell)
  | [], _ => []
  | script :: rest, s =>
    let r := runScript interp script s
    r :: outcomes interp rest (finalState r)

namespace Finishes

variable {bound calls : Nat}

theorem trace (logger message : String) :
    Finishes bound calls (fun _ => True) (trace logger message) (trace logger message) := by
  refine choose fun s => ?_
  split
  · exact update (fun _ => rfl) (fun _ => rfl) (fun _ => rfl) fun _ => rfl
  · exact pure trivial

theorem withFrames {α : Type} {Q : α → Prop} {x y : Exec α} (h : Finishes bound calls Q x y) :
    Finishes bound calls Q (withFrames x) (withFrames y) := by
  have framed (n : Nat) : Finishes bound calls (fun _ => True)
      (modify fun s => { s with frames := n }) (modify fun s => { s with frames := n }) :=
    update (fun _ => rfl) (fun _ => rfl) (fun _ => rfl) fun _ => rfl
  refine choose fun s => ?_
  dsimp only
  split
  · exact throw (by simp)
  · split
    · exact throw (by simp)
    · exact (framed _).bind fun _ _ => h.ensuring (framed _)

theorem endScript : Finishes bound calls (fun _ => True) endScript endScript := by
  have report (c : Cell) : Finishes bound calls (fun _ => True) (report c) (report c) := by
    refine choose fun s => ?_
    split
    · refine choose fun t => ?_
      split
      · exact trace _ _
      · next f h =>
        refine throw ?_
        rcases describe_error h with rfl | ⟨g, rfl⟩
        · simp
        · simp
    · exact pure trivial
  exact popReturn.bind fun c _ => bind (P := fun _ => True)
    (update (fun _ => rfl) (fun _ => rfl) (fun _ => rfl) fun _ => rfl) fun _ _ =>
      (report c).bind fun _ _ => pure trivial

theorem runFromRest {p q : Interp} {script : Script}
    (h : (finishing bound calls).AgreeOn (.straight bound) p q)
    (hs : Stmt.Straight bound script.statements) :
    Finishes bound calls (fun _ => True) (runFromRest p script) (runFromRest q script) := by
  have declared : (Fragment.straight bound).declaresAll script.statements :=
    Fragment.declaresAll_straight hs.straight hs.closed hs.size
  have program := withFrames (h.prepareAndRun declared hs.all)
  refine (newCell (v := .undefined) trivial).bind fun c _ => bind (P := fun _ => True)
    (update (fun _ => rfl) (fun _ => rfl) (fun _ => rfl) fun _ => rfl) fun _ _ => ?_
  exact choose fun s => (trace _ _).bind fun _ _ => (program.overrun none).bind fun _ _ => endScript

end Finishes

/-- With enough fuel, the outcome of a script does not depend on the fuel. -/
theorem runScript_straight (host : Host) {bound n m : Nat} {script : Script}
    (hscript : Stmt.Straight bound script.statements) {s : State} (hs : s.Straight bound)
    (hn : enoughFuel bound s.maxCallDepth.toNat bound ≤ n)
    (hm : enoughFuel bound s.maxCallDepth.toNat bound ≤ m) :
    runScript (Interp.withFuel host m) script s = runScript (Interp.withFuel host n) script s ∧
      (runScript (Interp.withFuel host n) script).Ends s (fun _ => s.reset.StraightFrom bound)
        fun f t => f ≠ .outOfFuel ∧ s.reset.StraightFrom bound t := by
  rw [Interp.withFuel_eq_tied, Interp.withFuel_eq_tied]
  have room : s.reset.RoomFor s.maxCallDepth.toNat := by
    change s.maxCallDepth - 0 ≤ _
    omega
  have run := Finishes.runFromRest (finishing_tied host (Nat.le_refl bound) hn hm) hscript
  constructor
  · rw [runScript_apply, runScript_apply]
    exact run.same s.reset (hs.congr rfl rfl) room
  · unfold Ends
    rw [runScript_apply]
    exact (run.ends s.reset (hs.congr rfl rfl) room).mono (fun _ _ h => h.2) fun _ _ h => h

/-- With enough fuel, the outcomes of scripts do not depend on the fuel, and none of them is a want
of fuel. -/
theorem outcomes_straight (host : Host) {bound n m : Nat} {scripts : List Script}
    (hscripts : ∀ script ∈ scripts, Stmt.Straight bound script.statements) {s : State}
    (hs : s.Straight bound) (hn : enoughFuel bound s.maxCallDepth.toNat bound ≤ n)
    (hm : enoughFuel bound s.maxCallDepth.toNat bound ≤ m) :
    outcomes (Interp.withFuel host m) scripts s = outcomes (Interp.withFuel host n) scripts s ∧
      ∀ r ∈ outcomes (Interp.withFuel host n) scripts s, failure? r ≠ some .outOfFuel := by
  induction scripts generalizing s with
  | nil => exact ⟨rfl, by simp [outcomes]⟩
  | cons script scripts ih =>
    obtain ⟨same, ends⟩ := runScript_straight host (hscripts script List.mem_cons_self) hs hn hm
    have after : s.reset.StraightFrom bound
        (finalState (runScript (Interp.withFuel host n) script s)) :=
      (ends.mono (fun _ _ h => h) fun _ _ h => h.2).final
    have limit : s.maxCallDepth =
      (finalState (runScript (Interp.withFuel host n) script s)).maxCallDepth :=
      after.maxCallDepth.symm
    rw [limit] at hn hm
    obtain ⟨rest, finished⟩ := ih (fun script h => hscripts script (List.mem_cons_of_mem _ h))
      after.straight hn hm
    refine ⟨?_, ?_⟩
    · simp only [outcomes]
      rw [same, rest]
    · intro r hr
      rcases List.mem_cons.1 hr with rfl | hr
      · cases hrun : runScript (Interp.withFuel host n) script s with
        | ok c t => simp [failure?]
        | error f t => simpa [failure?] using (ends.error hrun).1
      · exact finished r hr

end Exec

/-- Whatever the limit on calls, and whatever straight scripts are run one after the other on an
interpreter without the standard names, every one of them comes to an end: there is an amount of
fuel from which on the outcomes are the same, and none of them is a want of fuel. -/
theorem Session.straight_scripts_end (host : Host) (maxCallDepth : Int) (tracing : Bool)
    (sources : Sources) {scripts : List Script}
    (hscripts : ∀ script ∈ scripts, script.Parsed ∧ script.straight = true) :
    let s := (Session.create maxCallDepth false tracing sources).state
    ∃ fuel, (∀ n, fuel ≤ n → Exec.outcomes (Interp.withFuel host n) scripts s =
        Exec.outcomes (Interp.withFuel host fuel) scripts s) ∧
      ∀ r ∈ Exec.outcomes (Interp.withFuel host fuel) scripts s,
        Exec.failure? r ≠ some .outOfFuel := by
  intro s
  let bound := sizeOf scripts
  have each : ∀ script ∈ scripts, Stmt.Straight bound script.statements := by
    intro script h
    have smaller := List.sizeOf_lt_of_mem h
    have size : sizeOf script = 1 + sizeOf script.statements := by cases script; rfl
    exact ⟨(hscripts script h).2, (hscripts script h).1.closed, by omega⟩
  have fresh : s.Straight bound := by
    have cells : s.store.cells = #[] := rfl
    have globals : s.globals = [.empty] := rfl
    refine ⟨by simp [cells], ?_⟩
    simp [globals, Scope.empty, Bindings.empty]
  refine ⟨enoughFuel bound s.maxCallDepth.toNat bound, fun n hn => ?_, ?_⟩
  · exact (Exec.outcomes_straight host each fresh (Nat.le_refl _) hn).1
  · exact (Exec.outcomes_straight host each fresh (Nat.le_refl _) (Nat.le_refl _)).2

/-- A function that calls itself, and a later script that calls it again. -/
theorem Session.straight_scripts_end_recursive :
    let f : Expr := .call (.name "f" .operand 1) [] 1
    let first : Script := ⟨[.function ⟨"f", [], [.return (some f) 1], 1, ⟨0, 0⟩, 1⟩,
      .return (some f) 1]⟩
    let second : Script := ⟨[.expression f]⟩
    let s := (Session.create 7 false false ⟨⟨[], "/"⟩, [], []⟩).state
    (∀ script ∈ [first, second], script.Parsed ∧ script.straight = true) ∧
      ∃ fuel, (∀ n, fuel ≤ n →
          Exec.outcomes (Interp.withFuel (fun _ => pure none) n) [first, second] s =
            Exec.outcomes (Interp.withFuel (fun _ => pure none) fuel) [first, second] s) ∧
        ∀ r ∈ Exec.outcomes (Interp.withFuel (fun _ => pure none) fuel) [first, second] s,
          Exec.failure? r ≠ some .outOfFuel := by
  intro f first second s
  have scripts : ∀ script ∈ [first, second], script.Parsed ∧ script.straight = true := by
    intro script h
    simp only [List.mem_cons, List.not_mem_nil, or_false] at h
    rcases h with rfl | rfl
    · exact ⟨.inl ⟨⟨⟨[], "/"⟩, [], []⟩, 0, none,
        "function f() \x7b return f(); \x7d return f();", by cbv⟩, by decide⟩
    · exact ⟨.inl ⟨⟨⟨[], "/"⟩, [], []⟩, 0, none, "f();", by cbv⟩, by decide⟩
  exact ⟨scripts, Session.straight_scripts_end _ 7 false _ scripts⟩

end CellScript
