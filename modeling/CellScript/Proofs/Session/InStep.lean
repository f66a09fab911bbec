import CellScript.Proofs.Binding.InStep
import CellScript.Proofs.Session.Followed

/-!
# Methods in step in sessions

However a host uses a session, what it runs then keeps the calls of methods in step: the interpreter
that gives up where the current call is out of step (`Interp.inStep`) does the same as the
interpreter of the language.

* `Session.distinct_of_reachable`: objects of reachable sessions have distinct members;
* `Session.methods_in_step`: runs, calls and texts do the same in step.
-/

namespace CellScript

open Exec (Keeps)

namespace Host.Holds

variable {host : Host} (h : host.Holds)

include h

theorem ofHost (N : Nat) : (ProgramOrder.holding N).OfHost host := fun name s hs =>
  (h.members name s hs.2).mono hs.1

end Host.Holds

/-! ## States in which nothing is called -/

theorem State.Distinct.inner : State.Inner State.Distinct := fun _ _ h hs _ _ _ _ =>
  h.congr (congrArg Store.objects hs)

/-- Nothing has to be anchored where no method is called. -/
theorem State.Distinct.ready {s : State} (h : s.Distinct) : s.Ready none 0 :=
  ⟨⟨Nat.zero_le _, h⟩, fun _ ha => by cases ha⟩

namespace Exec

theorem keeps_distinct_reset : Keeps State.Distinct (modify State.reset) :=
  .update fun _ hs => hs.congr rfl

theorem keeps_distinct_newCell : Keeps State.Distinct (newCell .undefined) := fun _ hs =>
  hs.congr rfl

section

variable {host : Host} (hh : host.Holds) (n : Nat) {s : State}

include hh

theorem program_inStep (ss : List Stmt) (hs : s.Distinct) :
    (do prepareAll ss; (Interp.inStep host n none).run ss) s =
      (do prepareAll ss; (Interp.withFuel host n).run ss) s := by
  have declared := Layers.outer (Layers.prepareAll (Y := .holding 0) ss) s hs.ready.holds
  refine Ends.bind_congr (declared.mono (fun _ t ht => ?_) fun _ _ h => h)
  have all : Nodes.any.all false ss := fun _ _ => trivial
  have same : Watched none 0 (fun _ => True) ((Interp.inStep host n none).run ss)
      ((Interp.withFuel host n).run ss) := (watching_inStep hh n none 0).1.run all
  exact same.same (ht.2.distinct hs).ready

theorem runScript_inStep (script : Script) (hs : s.Distinct) :
    runScript (Interp.inStep host n none) script s =
      runScript (Interp.withFuel host n) script s :=
  State.Distinct.inner.runScript_congr keeps_distinct_reset keeps_distinct_newCell
    (fun _ => program_inStep hh n script.statements) hs

theorem callFromHost_inStep (c : Cell) (args : List Cell) (hs : s.Distinct) :
    callFromHost (Interp.inStep host n none) c args s =
      callFromHost (Interp.withFuel host n) c args s := by
  refine State.Distinct.inner.callFromHost_congr keeps_distinct_reset (fun f owner _ t ht => ?_) hs
  have same : Watched none 0 (fun _ => True) ((Interp.inStep host n none).invoke f owner args none)
      ((Interp.withFuel host n).invoke f owner args none) :=
    (watching_inStep hh n none 0).1.invoke owner args none trivial
  exact same.same ht.ready

theorem fullText_inStep (c : Cell) (hs : s.Distinct) :
    fullText (Interp.inStep host n none) c none s =
      fullText (Interp.withFuel host n) c none s := by
  have same : Watched none 0 (fun _ => True) (fullText (Interp.inStep host n none) c none)
      (fullText (Interp.withFuel host n) c none) :=
    (watching_inStep hh n none 0).1.fullText c none trivial
  exact same.same hs.ready

end

end Exec

/-! ## Sessions -/

namespace Session

/-- However a host uses a session, the members of an object have distinct names. -/
theorem distinct_of_reachable {host : Host} (hh : host.Holds) {only : Request → Prop}
    {session : Session} (h : Reachable host only session) : session.state.Distinct := by
  have on := ProgramOrder.followed (hh.ofHost 0) fuel
  have all (ss : List Stmt) : Nodes.any.all false ss := fun _ _ => trivial
  refine ((Invariant.of_order (R := (ProgramOrder.holding 0).toHeapOrder) only
    (fun hs h => ⟨Nat.zero_le _, hs.2.congr (congrArg Store.objects h)⟩)
    (fun _ _ => ⟨Nat.zero_le _, fun r => ?_⟩) (fun ss => on.run (all ss))
    (fun f owner args => on.invoke (f := f) owner args none trivial)
    fun c => on.fullText c none trivial).reachable h).2
  simp [State.initial, Store.empty, Store.object, Bindings.names, Bindings.empty]

/-- However a host uses a session, in all that is run, called or turned into text then, wherever an
expression, a statement, a call or a text begins or ends while a method is run: a name that the
object had a member of when the method was called is one that it still has a member of, and the bare
name is evaluated to the cell of this member, as is the member of `this` unless something else has
been assigned to `this`. The scope of the members has to be on the chain that is searched, and no
inner scope may bind the name or declare it as global, nor may that scope declare it as global. -/
theorem methods_in_step {host : Host} (hh : host.Holds) {only : Request → Prop}
    {session : Session} (h : Reachable host only session) (n : Nat) :
    (∀ script : Script,
      Exec.runScript (Interp.inStep host n none) script session.state =
        Exec.runScript (Interp.withFuel host n) script session.state) ∧
    (∀ (c : Cell) (args : List Cell),
      Exec.callFromHost (Interp.inStep host n none) c args session.state =
        Exec.callFromHost (Interp.withFuel host n) c args session.state) ∧
    ∀ c : Cell, Exec.fullText (Interp.inStep host n none) c none session.state =
      Exec.fullText (Interp.withFuel host n) c none session.state := by
  have distinct := distinct_of_reachable hh h
  exact ⟨fun script => Exec.runScript_inStep hh n script distinct,
    fun c args => Exec.callFromHost_inStep hh n c args distinct,
    fun c => Exec.fullText_inStep hh n c distinct⟩

/-- `class T { function f() { .. } } t = new T(); t.x = 1; return t.f();` -/
def callingMethod (body : List Stmt) : Script :=
  ⟨[.classDef false "T" [⟨"f", [], body, 1, ⟨0, 0⟩, 1⟩] ⟨0, 1⟩ 1,
    .assign (.name "t" .location 1) (.new "T" [] 1) 1,
    .assign (.member (.name "t" .operand 1) "x" .location 1) (.integer 1 1) 1,
    .return (some (.call (.member (.name "t" .operand 1) "f" .operand 1) [] 1)) 1]⟩

/-- The integer in the cell that a run has given. -/
def givenInteger? : EStateM.Result Failure State Cell → Option Int
  | .ok c s => (s.store.get c).integer?
  | .error _ _ => none

theorem holds_nothing : Host.Holds fun _ => pure none :=
  ⟨fun _ => .refl, fun _ _ _ => .of_eq rfl⟩

/-- `f() { x = 2; return this.x; }` gives two, and never is the call out of step. -/
theorem methods_in_step_assigned :
    let host : Host := fun _ => pure none
    let script := callingMethod [.assign (.name "x" .location 1) (.integer 2 1) 1,
      .return (some (.member (.name "this" .operand 1) "x" .operand 1)) 1]
    let session := create 200 false false ⟨⟨[], "/"⟩, [], []⟩
    host.Holds ∧ Reachable host (fun _ => True) session ∧
      givenInteger? (Exec.runScript (Interp.inStep host 12 none) script session.state) = some 2 := by
  intro host script session
  have reached : Reachable host (fun _ => True) session := .create _ _ _ _
  have same := (methods_in_step holds_nothing reached 12).1 script
  refine ⟨holds_nothing, reached, ?_⟩
  rw [same]
  decide +kernel

/-- `f() { this.y = 1; return y; }` fails, though `f() { this.y = 1; return this.y; }` gives one:
after the assignment the object has a member `y`, the scope of the members is on the chain, and
nothing else binds the name or declares it as global, but the bare name leads nowhere. -/
theorem added_member_out_of_step :
    let host : Host := fun _ => pure none
    let this := Expr.name "this" .operand 1
    let add := Stmt.assign (.member this "y" .location 1) (.integer 1 1) 1
    let run (e : Expr) := Exec.runScript (Interp.withFuel host 12)
      (callingMethod [add, .return (some e) 1])
    let s := (create 200 false false ⟨⟨[], "/"⟩, [], []⟩).state
    Exec.failure? (run (.name "y" .operand 1) s) =
        some (.script (.unknownIdentifier "y") (some 1)) ∧
      givenInteger? (run (.member this "y" .operand 1) s) = some 1 := by
  intro host this add run s
  exact ⟨by decide +kernel, by decide +kernel⟩

end Session

end CellScript
