import CellScript.Proofs.Congruence.Program

/-!
# Congruences and the interpreter

Every congruence holds of evaluation, execution, calls and texts. A congruence is a logic of
programs in which it makes no difference whether a scope has just been opened, so
`Congruence.Program` gives one layer of the interpreter. Fuel then gives the whole of it.

* `Interp.tied run host n`: the interpreter with fuel `n` that runs sequences of statements by
  `run`; with `Exec.runAll` it is the interpreter of the language;
* `Congruence.Agree`: two interpreters are related, part by part;
* `Congruence.agree_tied`: interpreters that differ in `run` are related if `run` keeps the
  relation;
* `NodeLogic.agreeOn_withFuel`: a logic holds of the interpreter if calls keep it.
-/

namespace CellScript

/-! ## Interpreters by their treatment of sequences -/

namespace Interp

/-- The interpreter with the given fuel that runs sequences of statements by `run`. -/
def tied (run : (Stmt → Exec Unit) → List Stmt → Exec Unit) (host : Host) : (fuel : Nat) → Interp
  | 0 =>
    { evaluate := fun _ => throw .outOfFuel
      execute := fun _ => throw .outOfFuel
      run := run fun _ => throw .outOfFuel
      invoke := fun _ _ _ _ => throw .outOfFuel
      text := fun _ _ _ => throw .outOfFuel }
  | n + 1 =>
    let self := tied run host n
    { evaluate := Exec.evaluateWith self
      execute := Exec.executeWith n self
      run := run (Exec.executeWith n self)
      invoke := Exec.invokeWith host self
      text := Exec.textWith n self }

theorem withFuel_eq_tied (host : Host) (n : Nat) : withFuel host n = tied Exec.runAll host n := by
  induction n with
  | zero => rfl
  | succ n ih =>
    unfold tied
    rw [← ih]
    rfl

end Interp

/-! ## Closed programs -/

/-- The nodes of closed programs. -/
def Nodes.closed : Nodes where
  expr _ := True
  stmt inLoop st := st.closed inLoop = true

theorem Nodes.closed_all {inLoop : Bool} {ss : List Stmt}
    (h : Stmt.closedAll inLoop ss = true) : Nodes.closed.all inLoop ss :=
  Stmt.closedAll_iff.1 h

namespace Fragment

mutual

theorem declares_of_closed {inLoop : Bool} :
    ∀ {st : Stmt}, st.closed inLoop = true → closed.declares st
  | .function f, h => by
    rw [Stmt.closed, FunctionDef.closed_eq] at h
    exact h
  | .classDef _ _ methods _ _, h => by
    rw [Stmt.closed] at h
    exact FunctionDef.closedAll_iff.1 h
  | .include _ body _, h => by
    rw [Stmt.closed] at h
    rw [declares]
    exact declaresAll_of_closed h
  | .expression _, _ | .assign _ _ _, _ | .update _ _ _ _, _ | .realize _ _ _, _ | .nop _, _
  | .block _ _, _ | .branch _ _ _ _, _ | .loop _ _, _ | .whileLoop _ _ _, _ | .doWhile _ _ _, _
  | .forLoop _ _ _ _ _, _ | .break _, _ | .continue _, _ | .return _ _, _ | .global _ _, _ => by
    unfold declares
    trivial

theorem declaresAll_of_closed {inLoop : Bool} :
    ∀ {ss : List Stmt}, Stmt.closedAll inLoop ss = true → closed.declaresAll ss
  | [], _ => trivial
  | s :: ss, h => by
    simp only [Stmt.closedAll, Bool.and_eq_true] at h
    exact ⟨declares_of_closed h.1, declaresAll_of_closed h.2⟩

end

end Fragment

theorem Expr.partsIn_closed (e : Expr) : e.PartsIn .closed .closed := by
  cases e <;> simp [Expr.PartsIn, Nodes.closed, Fragment.closed]

theorem Stmt.partsIn_of_isPlain (inLoop : Bool) {st : Stmt} (h : st.isPlain = true) :
    st.PartsIn .closed .closed inLoop := by
  cases st with
  | expression _ | nop _ | global _ _ | function _ | classDef _ _ _ _ _ => trivial
  | assign _ _ _ | update _ _ _ _ => exact ⟨trivial, trivial⟩
  | _ => cases h

theorem Stmt.partsIn_closed {inLoop : Bool} {st : Stmt} (h : st.closed inLoop = true) :
    st.PartsIn .closed .closed inLoop := by
  have body {inLoop : Bool} {ss : List Stmt} (hs : Stmt.closedAll inLoop ss = true) :
      Fragment.closed.declaresAll ss ∧ Nodes.closed.all inLoop ss :=
    ⟨Fragment.declaresAll_of_closed hs, Nodes.closed_all hs⟩
  cases st with
  | expression _ | assign _ _ _ | update _ _ _ _ | nop _ | global _ _ | function _
  | classDef _ _ _ _ _ => exact Stmt.partsIn_of_isPlain inLoop rfl
  | realize _ ss _ => exact body (by simpa [Stmt.closed] using h)
  | «include» _ ss _ => exact Nodes.closed_all (by simpa [Stmt.closed] using h)
  | block ss _ => exact body (by simpa [Stmt.closed] using h)
  | branch condition positive negative _ =>
    simp only [Stmt.closed, Bool.and_eq_true] at h
    refine ⟨trivial, h.1, ?_⟩
    rintro st rfl
    exact h.2
  | loop _ _ =>
    rw [Stmt.closed] at h
    exact ⟨trivial, h⟩
  | whileLoop _ _ _ | doWhile _ _ _ =>
    rw [Stmt.closed] at h
    exact ⟨trivial, trivial, h⟩
  | forLoop _ _ _ _ _ =>
    simp only [Stmt.closed, Bool.and_eq_true] at h
    exact ⟨trivial, h.1.1, trivial, h.1.2, h.2⟩
  | «break» _ | «continue» _ =>
    rw [Stmt.closed] at h
    exact .inr h
  | «return» _ _ => exact fun _ _ => trivial

namespace Congruence

open CellLogic (Holds)

variable (L : Congruence)

/-! ## Congruences as logics of programs -/

theorem declarations : Fragment.closed.Declarations fun x y => L.Holds x y where
  pure := L.holds_pure ()
  bind hx hy := hx.bind fun _ => hy
  declareFunction f hf := L.declareFunction f (by rw [FunctionDef.closed_eq]; exact hf)
  addType := L.addType

theorem prepareAll {inLoop : Bool} {ss : List Stmt} (h : Stmt.closedAll inLoop ss = true) :
    L.Holds (Exec.prepareAll ss) (Exec.prepareAll ss) :=
  L.declarations.prepareAll (Fragment.declaresAll_of_closed h)

theorem evaluateName (name : String) (use : Use) (line : Nat) :
    L.Holds (Exec.evaluateName name use line) (Exec.evaluateName name use line) := by
  refine Holds.bind (L.find? name) fun c => ?_
  split
  · exact L.holds_pure _
  · cases use with
    | operand => exact L.fail _ _
    | location => exact L.newName _ _

/-- The logic in which nothing depends on whether a scope has just been opened. -/
def logic : ProgramLogic .closed where
  toStepLogic := L.toStepLogic
  Fresh l _ x y := L.Rel l (fun _ => True) x y
  jumps h := h.elim
  evaluateName name use line _ := L.evaluateName name use line
  fresh h := h
  prepared hd h := L.bind (L.declarations.prepareAll hd).weaken fun _ _ => h
  takeResult := L.takeResult
  inBlock := L.inBlock
  fillObject := L.fillObject
  loopBefore limit _ := L.loopBefore limit
  loopAfter limit _ := L.loopAfter limit

/-! ## One layer -/

/-- Two interpreters are related, part by part. -/
structure Agree (L : Congruence) (p q : Interp) : Prop where
  evaluate (e : Expr) : L.Holds (p.evaluate e) (q.evaluate e)
  execute {inLoop : Bool} {st : Stmt} : st.closed inLoop = true →
    L.Rel (.within inLoop) (fun _ => True) (p.execute st) (q.execute st)
  run {inLoop : Bool} {ss : List Stmt} : Stmt.closedAll inLoop ss = true →
    L.Rel (.within inLoop) (fun _ => True) (p.run ss) (q.run ss)
  invoke {f : Callable} (owner : Option ObjectRef) (args : List Cell) (line : Option Nat) :
    f.closed = true → L.Holds (p.invoke f owner args line) (q.invoke f owner args line)
  text (frames : Nat) (c : Cell) (line : Option Nat) :
    L.Holds (p.text frames c line) (q.text frames c line)

namespace Agree

variable {L : Congruence} {p q : Interp} (h : L.Agree p q)

include h

theorem fullText (c : Cell) (line : Option Nat) :
    L.Holds (Exec.fullText p c line) (Exec.fullText q c line) :=
  Holds.bind L.frames fun n => h.text n c line

theorem on : L.logic.AgreeOn .closed p q where
  evaluate _ := h.evaluate _
  execute := h.execute
  run hss := h.run (Stmt.closedAll_iff.2 hss)
  invoke := h.invoke
  fullText c line _ := h.fullText c line

theorem evaluateWith (e : Expr) : L.Holds (Exec.evaluateWith p e) (Exec.evaluateWith q e) :=
  h.on.evaluateWith e.partsIn_closed

theorem executeWith (limit : Nat) {inLoop : Bool} {st : Stmt} (hst : st.closed inLoop = true) :
    L.Rel (.within inLoop) (fun _ => True) (Exec.executeWith limit p st)
      (Exec.executeWith limit q st) :=
  h.on.executeWith limit (Stmt.partsIn_closed hst)

theorem textWith (limit frames : Nat) (c : Cell) (line : Option Nat) :
    L.Holds (Exec.textWith limit p frames c line) (Exec.textWith limit q frames c line) :=
  h.on.textWith (fun e => by cases e) (fun e => by cases e) h.text limit frames c line

theorem runCallable (host : Host) {k : Callable} (line : Option Nat) (hk : k.closed = true) :
    L.Holds (Exec.runCallable host p k line) (Exec.runCallable host q k line) := by
  refine h.on.runCallable line hk (fun name ps e => ?_) ?_
  · rw [e] at hk
    cases hk
  rintro ps body id rfl
  exact ⟨Fragment.declaresAll_of_closed hk, Nodes.closed_all hk⟩

theorem invokeWith (host : Host) {k : Callable} (owner : Option ObjectRef) (args : List Cell)
    (line : Option Nat) (hk : k.closed = true) :
    L.Holds (Exec.invokeWith host p k owner args line)
      (Exec.invokeWith host q k owner args line) :=
  L.inCall _ _ _ _ (h.runCallable host line hk)

theorem holds (condition : Expr) (line : Nat) :
    L.Holds (Exec.holds p condition line) (Exec.holds q condition line) :=
  h.on.holds line trivial

theorem callIfMethod (obj : Cell) (name : String) (line : Nat) :
    L.Holds (Exec.callIfMethod p obj name line) (Exec.callIfMethod q obj name line) :=
  h.on.callIfMethod obj name line

/-- Statements that hold no others, and raise nothing. -/
theorem plain (limit : Nat) {st : Stmt} (hst : st.isPlain = true) :
    L.Holds (Exec.executeWith limit p st) (Exec.executeWith limit q st) :=
  h.on.plain limit hst (Stmt.partsIn_of_isPlain false hst)

/-- The declarations of statements and then the statements themselves. -/
theorem prepareAndRun {inLoop : Bool} {body : List Stmt}
    (hb : Stmt.closedAll inLoop body = true) :
    L.Rel (.within inLoop) (fun _ => True) (Exec.prepareAll body >>= fun _ => p.run body)
      (Exec.prepareAll body >>= fun _ => q.run body) :=
  h.on.prepareAndRun (Fragment.declaresAll_of_closed hb) (Nodes.closed_all hb)

end Agree

/-! ## All layers -/

/-- Interpreters that differ only in how they run sequences are related if these ways are. -/
theorem agree_tied (L : Congruence) {run run' : (Stmt → Exec Unit) → List Stmt → Exec Unit}
    (hrun : ∀ {f g : Stmt → Exec Unit} {inLoop : Bool} {ss : List Stmt},
      (∀ {st}, st.closed inLoop = true → L.Rel (.within inLoop) (fun _ => True) (f st) (g st)) →
      Stmt.closedAll inLoop ss = true →
        L.Rel (.within inLoop) (fun _ => True) (run f ss) (run' g ss))
    (host : Host) (n : Nat) : L.Agree (Interp.tied run host n) (Interp.tied run' host n) := by
  have out : Failure.outOfFuel ≠ .emptyStack := fun e => by cases e
  induction n with
  | zero =>
    exact ⟨fun _ => L.throw _ out, fun _ => L.throw _ out, hrun fun _ => L.throw _ out,
      fun _ _ _ _ => L.throw _ out, fun _ _ _ => L.throw _ out⟩
  | succ n ih =>
    exact ⟨ih.evaluateWith, ih.executeWith n, hrun (ih.executeWith n), ih.invokeWith host,
      ih.textWith n⟩

end Congruence

/-- A logic that sequences of statements and calls keep holds of the interpreter on all nodes of a
set that has the parts of its nodes. -/
theorem NodeLogic.agreeOn_withFuel {F : Fragment} {L : NodeLogic F} {K : Nodes} {host : Host}
    (out : F.failure .outOfFuel) (deep : F.failure .exhausted)
    (expr : ∀ {e}, K.expr e → e.PartsIn F K)
    (stmt : ∀ {inLoop st}, K.stmt inLoop st → st.PartsIn F K inLoop)
    (frames : L.Holds Exec.frames Exec.frames)
    (run : ∀ {f : Stmt → Exec Unit} {inLoop : Bool} {ss : List Stmt},
      (∀ {st}, K.stmt inLoop st → L.Rel (.within inLoop) (fun _ => True) (f st) (f st)) →
      K.all inLoop ss →
      L.Rel (.within inLoop) (fun _ => True) (Exec.runAll f ss) (Exec.runAll f ss))
    (invoke : ∀ n, L.AgreeOn K (Interp.withFuel host n) (Interp.withFuel host n) →
      ∀ {f : Callable} (owner : Option ObjectRef) (args : List Cell) (line : Option Nat),
        F.callable f → L.Holds (Exec.invokeWith host (Interp.withFuel host n) f owner args line)
          (Exec.invokeWith host (Interp.withFuel host n) f owner args line)) (n : Nat) :
    L.AgreeOn K (Interp.withFuel host n) (Interp.withFuel host n) := by
  have fullText {p : Interp}
      (h : ∀ frames c line, L.Holds (p.text frames c line) (p.text frames c line)) (c : Cell)
      (line : Option Nat) : L.Holds (Exec.fullText p c line) (Exec.fullText p c line) :=
    frames.bind fun k => h k c line
  suffices h : L.AgreeOn K (Interp.withFuel host n) (Interp.withFuel host n) ∧
      ∀ frames c line, L.Holds ((Interp.withFuel host n).text frames c line)
        ((Interp.withFuel host n).text frames c line) from h.1
  induction n with
  | zero =>
    have texts (frames : Nat) (c : Cell) (line : Option Nat) :
        L.Holds ((Interp.withFuel host 0).text frames c line)
          ((Interp.withFuel host 0).text frames c line) := L.throw _ out
    exact ⟨{
      evaluate := fun _ => L.throw _ out
      execute := fun _ => L.throw _ out
      run := run (f := Interp.executeAt host 0) fun _ => L.throw _ out
      invoke := fun _ _ _ _ => L.throw _ out
      fullText := fun c line _ => fullText texts c line }, texts⟩
  | succ n ih =>
    obtain ⟨on, texts⟩ := ih
    have execute {inLoop : Bool} {st : Stmt} (h : K.stmt inLoop st) :
        L.Rel (.within inLoop) (fun _ => True) (Interp.executeAt host (n + 1) st)
          (Interp.executeAt host (n + 1) st) := on.executeWith n (stmt h)
    have texts (frames : Nat) (c : Cell) (line : Option Nat) :
        L.Holds ((Interp.withFuel host (n + 1)).text frames c line)
          ((Interp.withFuel host (n + 1)).text frames c line) :=
      on.textWith out deep texts n frames c line
    exact ⟨{
      evaluate := fun h => on.evaluateWith (expr h)
      execute := execute
      run := run execute
      invoke := invoke n on
      fullText := fun c line _ => fullText texts c line }, texts⟩

end CellScript
