import CellScript.Proofs.Congruence.Free
import CellScript.Proofs.Congruence.Interp

/-!
# Interpreters with more fuel

With more fuel a loop may take more turns and a text may look at more elements of a list; beyond
that, fuel bounds the nesting of steps only. So if running out of fuel is related to everything, the
interpreter with little fuel is related to the one with more. Only calls are left to the logic, as
everywhere.

* `ProgramLogic.Starves`: a logic of the whole language in which the first step may run out of fuel;
* `ProgramLogic.Starves.agreeOn_of_le`: the interpreters with less and with more fuel are related.
-/

namespace CellScript

open CellLogic (Holds)

/-- In this logic of the whole language, a step that runs out of fuel is related to every step. -/
structure ProgramLogic.Starves {F : Fragment} (L : ProgramLogic F) : Prop where
  full : F.Full
  creates (name : String) : F.creates name
  exhausted : F.failure .exhausted
  starved {α : Type} (x : Exec α) : L.Holds (throw .outOfFuel) x
  frames : L.Holds Exec.frames Exec.frames
  readFlags (p : Flags → Bool) : L.Holds (do return p (← get).flags) (do return p (← get).flags)
  clear (f : Flags) : L.Holds (Exec.clear f) (Exec.clear f)

namespace ProgramLogic.Starves

variable {F : Fragment} {L : ProgramLogic F} (h : L.Starves)

include h

/-! ## Loops, sequences and elements -/

/-- Where jumps may stand everywhere, steps are related whatever they raise. -/
theorem holds_of_rel {l : Flags} {α : Type} {x y : Exec α} (hx : L.Rel l (fun _ => True) x y) :
    L.Holds x y :=
  L.jumps h.full.jumps hx

theorem loopParts : Exec.LoopParts (fun x y => L.Holds x y) fun x y => L.Holds x y where
  pure := L.holds_pure
  bind := Holds.bind
  outOfFuel := h.starved _
  clear := h.clear
  loopExit := h.readFlags (·.meets .loopExit)
  whole hx := (h.clear _).bind fun _ => hx.bind fun _ => h.clear _

theorem iterate {turn turn' : Exec Bool} (ht : L.Holds turn turn') {m n : Nat} (hmn : m ≤ n) :
    L.Holds (Exec.iterate m turn) (Exec.iterate n turn') := by
  induction m generalizing n with
  | zero => exact h.starved _
  | succ m ih =>
    obtain ⟨k, rfl⟩ : ∃ k, n = k + 1 := ⟨n - 1, by omega⟩
    rw [Exec.iterate_succ, Exec.iterate_succ]
    refine ht.bind fun again => ?_
    split
    · exact ih (by omega)
    · exact L.holds_pure _

theorem elementTexts {f g : Cell → Exec String} (hf : ∀ c, L.Holds (f c) (g c)) (r : ListRef)
    {m n : Nat} (hmn : m ≤ n) (i : Nat) (before : List String) :
    L.Holds (Exec.elementTexts f r m i before) (Exec.elementTexts g r n i before) := by
  induction m generalizing n i before with
  | zero => exact h.starved _
  | succ m ih =>
    obtain ⟨k, rfl⟩ : ∃ k, n = k + 1 := ⟨n - 1, by omega⟩
    rw [Exec.elementTexts_succ, Exec.elementTexts_succ]
    exact L.elementThen hf (fun _ => ih (by omega) _ _) r i before

theorem runAll {f g : Stmt → Exec Unit} (hf : ∀ st, L.Holds (f st) (g st)) (ss : List Stmt) :
    L.Holds (Exec.runAll f ss) (Exec.runAll g ss) := by
  induction ss with
  | nil => exact L.holds_pure _
  | cons st ss ih =>
    have next (raised : Bool) : L.Holds (if raised then pure () else Exec.runAll f ss)
        (if raised then pure () else Exec.runAll g ss) := by
      split
      · exact L.holds_pure _
      · exact ih
    exact (hf st).bind fun _ => (h.readFlags (·.any)).bind next

/-! ## Interpreters -/

/-- Loops take more turns in the run with more fuel; in all other statements nothing is counted. -/
theorem executeWith {p q : Interp} (on : L.AgreeOn .any p q) {m n : Nat} (hmn : m ≤ n) (st : Stmt) :
    L.Holds (Exec.executeWith m p st) (Exec.executeWith n q st) := by
  have execute (st : Stmt) : L.Holds (p.execute st) (q.execute st) := by
    have any : Nodes.any.stmt false st := trivial
    exact h.holds_of_rel (on.execute any)
  have holds (condition : Expr) (line : Nat) :
      L.Holds (Exec.holds p condition line) (Exec.holds q condition line) :=
    on.holds line trivial
  have before {c d : Exec Bool} {x y u v : Exec Unit} (hc : L.Holds c d) (hx : L.Holds x y)
      (hu : L.Holds u v) : L.Holds (Exec.loopBefore m c x u) (Exec.loopBefore n d y v) :=
    h.loopParts.loopBefore_of_iterate (fun ht => h.iterate ht hmn) hc hx hu
  have after {c d : Exec Bool} {x y : Exec Unit} (hc : L.Holds c d) (hx : L.Holds x y) :
      L.Holds (Exec.loopAfter m c x) (Exec.loopAfter n d y) :=
    h.loopParts.loopAfter_of_iterate (fun ht => h.iterate ht hmn) hc hx
  cases st with
  | loop body line =>
    exact L.inScope (before (L.holds_pure _) (execute body) (L.holds_pure _))
  | whileLoop condition body line =>
    exact L.inScope (before (holds condition line) (execute body) (L.holds_pure _))
  | doWhile condition body line =>
    exact L.inScope (after (holds condition line) (execute body))
  | forLoop init condition step body line =>
    exact L.inScope ((execute init).bind fun _ =>
      before (holds condition line) (execute body) (execute step))
  | _ => exact h.holds_of_rel (on.executeWith m (h.full.stmtParts false _))

/-- The interpreter with less fuel is related to the one with more, if the logic is kept by
calls. -/
theorem agreeOn_of_le {host : Host}
    (invoke : ∀ {p q}, L.AgreeOn .any p q → ∀ (f : Callable) (owner : Option ObjectRef)
      (args : List Cell) (line : Option Nat),
      L.Holds (Exec.invokeWith host p f owner args line) (Exec.invokeWith host q f owner args line))
    {m n : Nat} (hmn : m ≤ n) :
    L.AgreeOn .any (Interp.withFuel host m) (Interp.withFuel host n) ∧
      ∀ frames c line, L.Holds ((Interp.withFuel host m).text frames c line)
        ((Interp.withFuel host n).text frames c line) := by
  have fullText {p q : Interp}
      (ht : ∀ frames c line, L.Holds (p.text frames c line) (q.text frames c line)) (c : Cell)
      (line : Option Nat) : L.Holds (Exec.fullText p c line) (Exec.fullText q c line) :=
    h.frames.bind fun k => ht k c line
  induction m generalizing n with
  | zero =>
    have run (ss : List Stmt) : L.Holds (Exec.runAll (Interp.executeAt host 0) ss)
        (Exec.runAll (Interp.executeAt host n) ss) := h.runAll (fun _ => h.starved _) ss
    have text (frames : Nat) (c : Cell) (line : Option Nat) :
        L.Holds ((Interp.withFuel host 0).text frames c line)
          ((Interp.withFuel host n).text frames c line) := h.starved _
    exact ⟨{
      evaluate := fun _ => h.starved _
      execute := fun _ => (h.starved _).weaken
      run := fun _ => (run _).weaken
      invoke := fun _ _ _ _ => h.starved _
      fullText := fun c line _ => fullText text c line }, text⟩
  | succ m ih =>
    obtain ⟨k, rfl⟩ : ∃ k, n = k + 1 := ⟨n - 1, by omega⟩
    have le : m ≤ k := by omega
    obtain ⟨on, texts⟩ := ih le
    have execute (st : Stmt) : L.Holds (Interp.executeAt host (m + 1) st)
        (Interp.executeAt host (k + 1) st) := h.executeWith on le st
    have elements (frames : Nat) (line : Option Nat) (r : ListRef) :
        L.Holds (Exec.elementTexts ((Interp.withFuel host m).text frames · line) r m 0 [])
          (Exec.elementTexts ((Interp.withFuel host k).text frames · line) r k 0 []) :=
      h.elementTexts (texts frames · line) r le 0 []
    have text (frames : Nat) (c : Cell) (line : Option Nat) :
        L.Holds ((Interp.withFuel host (m + 1)).text frames c line)
          ((Interp.withFuel host (k + 1)).text frames c line) :=
      on.textWith_of_elements h.exhausted line (texts · · line) (elements · line) frames c
    exact ⟨{
      evaluate := fun _ => on.evaluateWith (h.full.exprParts fun _ _ _ => h.creates _)
      execute := fun _ => (execute _).weaken
      run := fun _ => (h.runAll execute _).weaken
      invoke := fun owner args line _ => invoke on _ owner args line
      fullText := fun c line _ => fullText text c line }, text⟩

end ProgramLogic.Starves

end CellScript
