import CellScript.Proofs.Located.Interp
import CellScript.Proofs.Session.Stacks

/-!
# Failures of scripts have lines

A script that fails says at which line, and the line is that of a node of a script that was run. The
one failure without a line is that of a run which used up the stack of the machine outside of any
call. To say that this is the only one however large the stack is, scripts are run here in any
number of frames.

* `Exec.runScriptIn limit`: run a script in a number of frames, or in those of the machine, as
  `Exec.runScript` does;
* `Exec.UsesUpStack`: the statements of the script end for want of frames;
* `Ran`: the states that any sequence of runs leads to.
-/

namespace CellScript

namespace Exec

/-- Run a step in the given number of frames, or in those of the machine. -/
def inFrames {α : Type} (limit : Option Nat) (x : Exec α) : Exec α :=
  match limit with
  | none => withFrames x
  | some n => do
    let previous ← get
    modify fun s => { s with frames := n }
    ensuring x (modify fun s => { s with frames := previous.frames })

/-- Run the statements of a script. -/
def program (limit : Option Nat) (interp : Interp) (script : Script) : Exec Unit :=
  inFrames limit do
    prepareAll script.statements
    interp.run script.statements

/-- Run a script in the given number of frames, or in those of the machine. -/
def runScriptIn (limit : Option Nat) (interp : Interp) (script : Script) : Exec Cell := do
  beginScript
  mapFailure (overrun none) (program limit interp script)
  endScript

/-- Run in the frames of the machine, a script is run as a session does it. -/
theorem runScriptIn_none (interp : Interp) (script : Script) :
    runScriptIn none interp script = runScript interp script := rfl

/-- The statements of the script end for want of frames, outside of any call. -/
def UsesUpStack (limit : Option Nat) (interp : Interp) (script : Script) (s : State) : Prop :=
  failure? (program limit interp script (finalState (beginScript s))) = some .exhausted

instance (limit : Option Nat) (interp : Interp) (script : Script) (s : State) :
    Decidable (UsesUpStack limit interp script s) :=
  inferInstanceAs (Decidable (_ = _))

end Exec

/-- The states that runs of scripts lead to, one after the other on one interpreter, with the
scripts that were run, last first. -/
inductive Ran (host : Host) : List Script → State → Prop
  | create (maxCallDepth : Int) (standardLibrary tracing : Bool) (sources : Sources) :
    Ran host [] (Session.create maxCallDepth standardLibrary tracing sources).state
  | run {done : List Script} {s : State} (limit : Option Nat) (fuel : Nat) (script : Script) :
    Ran host done s → Ran host (script :: done)
      (finalState (Exec.runScriptIn limit (Interp.withFuel host fuel) script s))

/-- A line of a node of one of the scripts. -/
def LineOf (scripts : List Script) (l : Nat) : Prop := ∃ script ∈ scripts, l ∈ script.lines

/-! ## More lines -/

section

variable {L M : Nat → Prop} (h : ∀ l, L l → M l)

include h

theorem Callable.Lined.mono {f : Callable} (hf : f.Lined L) : f.Lined M := by
  cases f with
  | script ps body id => exact fun l hl => h l (hf l hl)
  | host name ps => exact hf
  | _ => exact trivial

theorem Value.Lined.mono {v : Value} (hv : v.Lined L) : v.Lined M := by
  cases v with
  | function f owner => exact Callable.Lined.mono h hv
  | objectType t => exact fun m hm => (hv m hm).mono h
  | _ => exact trivial

theorem State.Lined.mono {s : State} (hs : s.Lined L) : s.Lined M :=
  ⟨fun v hv => (hs.cells v hv).mono h,
    fun scope hscope t ht m hm => (hs.types scope hscope t ht m hm).mono h⟩

end

/-! ## Runs -/

namespace Exec.Located

variable {L : Nat → Prop} {o : Bool}

theorem beginScript : Located L o (fun _ => True) beginScript :=
  bind (update (fun _ => rfl) fun _ => rfl) fun _ _ =>
    (newCell (v := .undefined) trivial).bind fun _ _ => (pushReturn _).bind fun _ _ =>
      choose fun _ => trace _ _

theorem inFrames {α : Type} {Q : α → Prop} {x : Exec α} (limit : Option Nat)
    (hx : Located L o Q x) : Located L o Q (inFrames limit x) := by
  have framed (n : Nat) : Located L o (fun _ => True)
      (modify fun s => { s with frames := n }) := update (fun _ => rfl) fun _ => rfl
  cases limit with
  | some n => exact choose fun _ => (framed n).bind fun _ _ => hx.ensuring (framed _)
  | none =>
    refine choose fun s => ?_
    dsimp only
    split
    · exact throw trivial
    · split
      · exact throw trivial
      · exact (framed _).bind fun _ _ => hx.ensuring (framed _)

theorem program {interp : Interp} (hi : interp.FailsIn L) (limit : Option Nat) {script : Script}
    (hs : ∀ l ∈ script.lines, L l) :
    Located L false (fun _ => True) (program limit interp script) :=
  inFrames limit (hi.prepareAndRun hs)

theorem endScript : Located L o (fun _ => True) endScript := by
  have described (c : Cell) : Located L o (fun _ => True) (report c) := by
    refine choose fun s => ?_
    split
    · refine choose fun t => ?_
      split
      · exact trace _ _
      · next f h =>
        rcases describe_error h with rfl | ⟨g, rfl⟩
        · exact throw trivial
        · exact throw trivial
    · exact pure trivial
  exact popReturn.bind fun c _ => bind (update (fun _ => rfl) fun _ => rfl) fun _ _ =>
    (described c).bind fun _ _ => pure trivial

/-- A run leaves its place open only for a stack that was used up. -/
theorem runScriptIn {interp : Interp} (hi : interp.FailsIn L) (limit : Option Nat)
    {script : Script} (hs : ∀ l ∈ script.lines, L l) :
    Located L true (fun _ => True) (runScriptIn limit interp script) :=
  beginScript.bind fun _ _ => bind ((program hi limit hs).weaken.overrun lineIn_none)
    fun _ _ => endScript

end Exec.Located

namespace Exec

theorem eq_error_of_failure? {α : Type} {r : EStateM.Result Failure State α} {f : Failure}
    (h : failure? r = some f) : ∃ t, r = .error f t := by
  cases r with
  | ok a t => cases h
  | error g t =>
    cases h
    exact ⟨t, rfl⟩

/-- Unless it uses up the stack, a run leaves no place open. -/
theorem runScriptIn_ends {L : Nat → Prop} {interp : Interp} (hi : interp.FailsIn L)
    (limit : Option Nat) {script : Script} (hl : ∀ l ∈ script.lines, L l) {s : State}
    (hs : s.Lined L) (hstack : ¬ UsesUpStack limit interp script s) :
    (runScriptIn limit interp script).Ends s (fun _ _ => True) fun f _ => f.In L false := by
  have begun : beginScript.Ends s (fun _ u => u.Lined L ∧ u = finalState (beginScript s))
      fun f _ => f.In L false := by
    have h := ends_iff.1 ((Located.beginScript (o := false)).ends s hs)
    refine ends_iff.2 ⟨fun a u hu => ⟨(h.1 a u hu).2, ?_⟩, fun f u hu => (h.2 f u hu).1⟩
    rw [hu]
    rfl
  refine Ends.bind begun fun _ u ⟨hu, hrun⟩ => ?_
  have ran := ends_iff.1 ((Located.program hi limit hl).ends u hu)
  refine Ends.bind (Q := fun _ v => v.Lined L) (Ends.mapFailure (ends_iff.2 ⟨?_, ?_⟩)) ?_
  · exact fun a v hv => (ran.1 a v hv).2
  · intro f v hv
    have enough : f ≠ .exhausted := by
      rintro rfl
      exact hstack (by rw [UsesUpStack, ← hrun, hv]; rfl)
    cases f with
    | exhausted => exact absurd rfl enough
    | script cause line => exact (ran.2 _ v hv).1
    | _ => exact trivial
  · exact fun _ v hv => (Located.endScript.ends v hv).mono (fun _ _ _ => trivial) fun _ _ h => h.1

end Exec

/-! ## Sequences of runs -/

namespace Exec.Located

variable {L : Nat → Prop} {o : Bool}

theorem defineGlobal (name : String) {v : Value} (hv : v.Lined L) :
    Located L true (fun _ => True) (defineGlobal name v) :=
  (newCell hv).bind fun _ _ => addGlobal name _ lineIn_none

theorem installLibrary : Located L true (fun _ => True) installLibrary := by
  have constants : ∀ x ∈ standardConstants,
      Located L true (fun _ => True) (Exec.defineGlobal x.1 x.2) := by
    intro x hx
    refine defineGlobal x.1 ?_
    simp only [standardConstants, List.mem_cons, List.not_mem_nil, or_false] at hx
    rcases hx with rfl | rfl | rfl | rfl | rfl | rfl <;> exact trivial
  have functions : ∀ f ∈ Builtin.all,
      Located L true (fun _ => True) (Exec.defineFunction f.name (.builtin f)) := by
    intro f _
    exact (trace _ _).bind fun _ _ => defineGlobal (v := .function (.builtin f) none) f.name trivial
  unfold Exec.installLibrary
  exact (forIn standardConstants (f := fun x => Exec.defineGlobal x.1 x.2) constants).bind
    fun _ _ => (forIn Builtin.all (f := fun f => Exec.defineFunction f.name (.builtin f))
      functions).bind fun _ _ => pure trivial

end Exec.Located

namespace Ran

variable {host : Host}

/-- The programs in a state are those of the scripts that were run. -/
theorem lined {done : List Script} {s : State} (h : Ran host done s) : s.Lined (LineOf done) := by
  induction h with
  | create maxCallDepth standardLibrary tracing sources =>
    rw [Session.state_create]
    have library : Exec.Keeps (State.Lined (LineOf [])) Exec.installLibrary := fun s hs =>
      (Exec.Located.installLibrary.ends s hs).mono (fun _ _ h => h.2) fun _ _ h => h.2
    refine (Exec.freshContext_ends library standardLibrary ⟨?_, ?_⟩).final
    · simp [State.restart, State.reset, State.initial, Store.empty]
    · simp [State.restart, Scope.empty, Bindings.empty]
  | @run done s limit fuel script _ ih =>
    have more : ∀ l, LineOf done l → LineOf (script :: done) l := by
      rintro l ⟨tree, htree, hl⟩
      exact ⟨tree, List.mem_cons_of_mem _ htree, hl⟩
    have ends := (Exec.Located.runScriptIn (located_withFuel _ host fuel) limit
      fun l hl => ⟨script, List.mem_cons_self, hl⟩).ends s (ih.mono more)
    exact (ends.mono (fun _ _ h => h.2) fun _ _ h => h.2).final

/-- Whatever scripts are run on an interpreter, one after the other, and in however many frames:
where a script fails and has not used up the stack, it fails at a line, and the line is that of a
node of a script that was run. -/
theorem fails_at_node {done : List Script} {s : State} (h : Ran host done s) (limit : Option Nat)
    (fuel : Nat) {script : Script} {cause : Cause} {line : Option Nat}
    (hfail : Exec.failure? (Exec.runScriptIn limit (Interp.withFuel host fuel) script s) =
      some (.script cause line))
    (hstack : ¬ Exec.UsesUpStack limit (Interp.withFuel host fuel) script s) :
    ∃ l, line = some l ∧ ∃ tree ∈ script :: done, l ∈ tree.lines := by
  have more : ∀ l, LineOf done l → LineOf (script :: done) l := by
    rintro l ⟨tree, htree, hl⟩
    exact ⟨tree, List.mem_cons_of_mem _ htree, hl⟩
  obtain ⟨t, ht⟩ := Exec.eq_error_of_failure? hfail
  have located := (Exec.runScriptIn_ends (located_withFuel _ host fuel) limit
    (fun l hl => ⟨script, List.mem_cons_self, hl⟩) (h.lined.mono more) hstack).error ht
  cases line with
  | none => cases located
  | some l => exact ⟨l, rfl, located⟩

/-- A function of an earlier script fails at its own line when a later script calls it. -/
theorem fails_at_node_earlier :
    let host : Host := fun _ => throw .emptyStack
    let quotient : Expr := .arithmetic .div (.integer 1 7) (.integer 0 7) 7
    let first : Script := ⟨[.function ⟨"f", [], [.return (some quotient) 7], 6, ⟨0, 0⟩, 6⟩]⟩
    let second : Script := ⟨[.expression (.call (.name "f" .operand 2) [] 2)]⟩
    let s := finalState (Exec.runScriptIn none (Interp.withFuel host 20) first
      (Session.create 5 false false ⟨⟨[], "/"⟩, [], []⟩).state)
    Exec.failure? (Exec.runScriptIn (some 90) (Interp.withFuel host 20) second s) =
        some (.script .divisionByZero (some 7)) ∧
      ∃ l, some 7 = some l ∧ ∃ tree ∈ [second, first], l ∈ tree.lines := by
  refine ⟨?fails, fails_at_node (.run none 20 _ (.create 5 false false _)) (some 90) 20 ?fails ?_⟩
  · decide +kernel
  · decide +kernel

end Ran

end CellScript
