import CellScript.Proofs.Binding.Heeding
import Mathlib

/-!
# Global declarations are heeded in runs

The interpreter that gives up where the two readings of a declaration come apart
(`Interp.guarded State.ReadsGlobals`) and the one that gives up at the blocks that override a
declaration (`Interp.heeding`) do the same, whatever they run.

* `agree_guarded_heeding`: so they do in statements, expressions, calls and texts that are begun
  where the readings agree, for every amount of fuel;
* `State.Steady.isDeclaredGlobal`: what is declared stays declared;
* `global_declarations_heeded_iff`: the same for scripts and calls from the host.
-/

namespace CellScript

open Exec (Alongside Heeds Heeded HeededInward)

namespace Exec

/-- A block whose body gives up where the readings of declarations come apart. -/
theorem Heeded.block {p q : Interp} {body : List Stmt}
    (h : Heeded (fun _ => True) (p.run body) (q.run body))
    (guarded : ∀ s : State, ¬ s.ReadsGlobals → body ≠ [] →
      p.run body s = .error .emptyStack s) :
    Heeded (fun _ => True) (inBlock (prepareAll body >>= fun _ => p.run body))
      (runHeeding q body) where
  along := Heeds.of_finished fun s => (runHeeding_finished (Heeds.framed h.along) s).1
  same {s} hs := by
    obtain ⟨x, hx, same⟩ := runHeeding_apply q body s
    rw [same]
    refine inBlock_congr (Ends.bind_congr (E := fun _ _ => True)
      (ends_iff.2 ⟨fun _ t completed => ?_, fun _ _ _ => trivial⟩))
    have reads := State.readsGlobals_iff_overrides hs completed
    rcases hx with ⟨rfl, overrides⟩ | ⟨rfl, heeds⟩
    · refine guarded t (fun ht => ?_) ?_
      · rw [reads.1 ht] at overrides
        cases overrides
      · rintro rfl
        simp [State.overrides, Stmt.splicedAll] at overrides
    · exact h.same (reads.2 heeds)

/-- A list that is not empty gives up if its statements do. -/
theorem runAll_guarded {I : State → Prop} {execute : Stmt → Exec Unit} {ss : List Stmt} {s : State}
    (hs : ¬ I s) (hss : ss ≠ []) :
    runAll (fun st => guarded I (execute st)) ss s = .error .emptyStack s := by
  cases ss with
  | nil => exact absurd rfl hss
  | cons st ss =>
    have begun : guarded I (execute st) s = .error .emptyStack s := by
      unfold guarded
      rw [if_neg fun h => hs h.1]
    unfold runAll
    exact bind_of_error begun

end Exec

/-! ## The interpreter -/

/-- The functions of a host leave the local scopes as they are, and the others steady. -/
structure Host.LeavesScopes (host : Host) : Prop where
  steady : Host.Steady (fun _ => False) host
  locals (name : String) (s : State) : (finalState (host name s)).locals = s.locals

theorem Host.LeavesScopes.heeds {host : Host} (h : host.LeavesScopes) (name : String) :
    Heeds (fun _ => True) (host name) := by
  refine .of_framed (h.steady.framed name) fun s hs => ?_
  have reads : (finalState (host name s)).ReadsGlobals := hs.congr (h.locals name s)
  exact Exec.ends_of_final reads

/-- The interpreter that gives up where the readings of declarations come apart does what the one
does that gives up at the blocks that make them come apart. -/
theorem agree_guarded_heeding {host : Host} (hh : host.LeavesScopes) (n : Nat) :
    heeded.AgreeOn .any (Interp.guarded State.ReadsGlobals host n) (Interp.heeding host n) ∧
      ∀ frames c line, Heeded (fun _ => True)
        ((Interp.guarded State.ReadsGlobals host n).text frames c line)
        ((Interp.heeding host n).text frames c line) := by
  have full : (Fragment.declaring True).Full :=
    ⟨fun _ => trivial, trivial, trivial, trivial, trivial⟩
  have frames : Heeded (fun _ => True) Exec.frames Exec.frames := .self (.read fun _ => trivial)
  induction n with
  | zero =>
    have out {α : Type} : Heeded (fun _ => True) (throw .outOfFuel : Exec α) (throw .outOfFuel) :=
      .self (.throw _)
    exact ⟨{
      evaluate := fun _ => out
      execute := fun _ => out
      run := fun _ => .runAll (fun _ => out) _
      invoke := fun _ _ _ _ => out
      fullText := fun _ _ _ => frames.bind fun _ _ => out }, fun _ _ _ => out⟩
  | succ k ih =>
    obtain ⟨on, texts⟩ := ih
    have execute (st : Stmt) : Heeded (fun _ => True)
        (Exec.guarded State.ReadsGlobals
          (Exec.executeWith k (Interp.guarded State.ReadsGlobals host k) st))
        (Exec.executeHeeding (Interp.heeding host k) k st) := by
      refine Alongside.guarded (fun _ h => h) ?_
      rcases Exec.executeHeeding_cases (Interp.heeding host k) k st with
        ⟨n, body, line, rfl, rfl, same⟩ | ⟨other, same⟩
      · rw [same]
        have all : Nodes.any.all false body := fun _ _ => trivial
        exact Heeded.block (on.run all) fun s hs => Exec.runAll_guarded hs
      · rw [same]
        by_cases hb : ∃ body line, st = .block body line
        · obtain ⟨body, line, rfl⟩ := hb
          obtain rfl : k = 0 := other.resolve_right fun h => h body line rfl
          have interps : Interp.guarded State.ReadsGlobals host 0 = Interp.heeding host 0 :=
            (Interp.withFuel_eq_tied host 0).symm
          have all : Nodes.any.all false body := fun _ _ => trivial
          rw [interps]
          exact .self (Heeds.inBlock (Heeded.prepared body (on.run all)).framed)
        · exact on.executeOther k (full.stmtParts false st) fun body line h => hb ⟨body, line, h⟩
    have text (frames : Nat) (c : Cell) (line : Option Nat) :=
      (on.textWith trivial trivial texts k frames c line).guarded fun _ h => h
    have body (f : Callable) (line : Option Nat) :
        HeededInward (Exec.runCallable host (Interp.guarded State.ReadsGlobals host k) f line)
          (Exec.runCallable host (Interp.heeding host k) f line) :=
      on.runCallable line trivial (fun name _ _ => .self (hh.heeds name))
        fun _ body _ _ => ⟨full.declaresAll body, fun _ _ => trivial⟩
    exact ⟨{
      evaluate := fun _ =>
        (on.evaluateWith (full.exprParts fun _ _ _ => trivial)).guarded fun _ h => h
      execute := fun _ => execute _
      run := fun _ => .runAll execute _
      invoke := fun {f} owner args line _ =>
        ((body f line).inCall _ owner args line).guarded fun _ h => h
      fullText := fun c line _ => frames.bind fun n _ => text n c line }, text⟩

/-! ## Runs -/

namespace State

variable {s t : State}

theorem readsGlobals_of_nil (h : s.locals = []) : s.ReadsGlobals :=
  .of_undeclared fun name => by
    simp [isDeclaredGlobal, chain, h, chainOf, Scope.declaredGlobal]

/-- What is declared as global stays declared. -/
theorem Steady.isDeclaredGlobal {spared : String → Prop} (h : s.Steady spared t) {name : String}
    (hs : s.isDeclaredGlobal name = true) : t.isDeclaredGlobal name = true := by
  have top := h.locals
  cases hl : s.locals with
  | nil => simp [State.isDeclaredGlobal, chain, hl, chainOf, Scope.declaredGlobal] at hs
  | cons f below =>
    rw [hl] at top
    obtain ⟨g, hg, extends_⟩ := top.of_cons
    simp only [State.isDeclaredGlobal, chain, hl, chainOf, Scope.declaredGlobal, List.any_cons,
      Bool.or_eq_true] at hs
    simp only [State.isDeclaredGlobal, chain, hg, chainOf, Scope.declaredGlobal, List.any_cons,
      Bool.or_eq_true, extends_.linked]
    refine hs.imp_left fun hn => ?_
    rw [List.contains_iff_mem] at hn ⊢
    exact extends_.scope.globalNames hn

end State

namespace Exec

section

variable {host : Host} (hh : host.LeavesScopes) (n : Nat)

include hh

theorem runScript_heeding (script : Script) :
    runScript (Interp.guarded State.ReadsGlobals host n) script =
      runScript (Interp.heeding host n) script := by
  funext s
  refine Ends.bind_congr ((beginScript_ends s).mono (fun _ t ⟨ht, _⟩ => ?_) fun _ _ h => h)
  refine bind_congr_left (mapFailure_congr (withFrames_congr fun frames => ?_) _) _
  have bare : State.Bare { t with frames } := .inl ht
  refine Ends.bind_congr ((prepareAll_ends script.statements bare).mono
    (fun _ u declared => ?_) fun _ _ h => h)
  have height := declared.steady.locals.length_eq
  have none : u.locals = [] := List.eq_nil_of_length_eq_zero (height.trans (by simp [ht]))
  have all : Nodes.any.all false script.statements := fun _ _ => trivial
  exact ((agree_guarded_heeding hh n).1.run all).same (State.readsGlobals_of_nil none)

theorem callFromHost_heeding (c : Cell) (args : List Cell) :
    callFromHost (Interp.guarded State.ReadsGlobals host n) c args =
      callFromHost (Interp.heeding host n) c args := by
  funext s
  unfold callFromHost
  rw [value_bind_apply, value_bind_apply]
  cases s.store.get c with
  | function f owner =>
    have called := (agree_guarded_heeding hh n).1.invoke (f := f) owner args none trivial
    have begun (frames : Nat) : State.ReadsGlobals { s.reset with frames } :=
      State.readsGlobals_of_nil rfl
    exact mapFailure_congr (withFrames_congr fun frames => called.same (begun frames)) _
  | _ => rfl

end

end Exec

theorem Interp.heeding_standsFor {host : Host} (hh : Host.Steady (fun _ => False) host) (n : Nat) :
    (Interp.heeding host n).StandsFor (Interp.withFuel host n) := by
  have agree := (agree_heeding hh n).1
  have any (ss : List Stmt) : Nodes.any.all false ss := fun _ _ => trivial
  exact ⟨fun ss s => (agree.run (any ss)).same s trivial,
    fun f owner args line s => (agree.invoke (f := f) owner args line trivial).same s trivial,
    fun c s => (agree.fullText c none trivial).same s trivial⟩

/-- Wherever an expression, a statement, a call or a text begins or ends in a run, the names that
the current call declares as global are found in no local scope, they are looked for among the
global names, and they are made there, exactly until a block is entered that defines a function of
such a name while no global scope binds the name: the interpreter that gives up where this is not
so, and the one that gives up at such blocks, do the same. Else the latter does what the interpreter
of the language does. What is declared as global stays declared as long as its scope. -/
theorem global_declarations_heeded_iff {host : Host} (hh : host.LeavesScopes) (n : Nat) :
    let guarded := Interp.guarded State.ReadsGlobals host n
    let heeding := Interp.heeding host n
    (∀ script, Exec.runScript guarded script = Exec.runScript heeding script) ∧
    (∀ c args, Exec.callFromHost guarded c args = Exec.callFromHost heeding c args) ∧
    (∀ c (s : State), s.ReadsGlobals →
      Exec.fullText guarded c none s = Exec.fullText heeding c none s) ∧
    heeding.StandsFor (Interp.withFuel host n) ∧
    (∀ (body : List Stmt) (s t : State), s.ReadsGlobals →
      Exec.prepareAll body (s.pushBlockScope .empty) = .ok () t →
        (t.ReadsGlobals ↔ s.overrides body = false)) ∧
    ∀ (st : Stmt) (name : String) (s : State), s.isDeclaredGlobal name = true →
      (finalState ((Interp.withFuel host n).execute st s)).isDeclaredGlobal name = true := by
  intro guarded heeding
  refine ⟨Exec.runScript_heeding hh n, Exec.callFromHost_heeding hh n, fun c s hs => ?_,
    Interp.heeding_standsFor hh.steady n, fun body s t hs => State.readsGlobals_iff_overrides hs,
    fun st name s declared => ?_⟩
  · exact ((agree_guarded_heeding hh n).1.fullText c none trivial).same hs
  · have any : Nodes.any.stmt false st := trivial
    have framed := (Interp.outlasts hh.steady (Nat.le_refl n)).1.execute any
    exact (Exec.Framed.final framed s).isDeclaredGlobal declared

/-- `{ global f; { statement } } return end;` -/
def declaresOutside (inner : Stmt) (result : Expr) : Script :=
  ⟨[.block [.global "f" 1, .block [inner] 1] 1, .return (some result) 1]⟩

/-- `{ global f; { f = 1; } } return f;` -/
def assignsInside : Script :=
  declaresOutside (.assign (.name "f" .location 1) (.integer 1 1) 1) (.name "f" .operand 1)

/-- `{ global f; { function f() { return 1; } } } return f();` -/
def definesInside : Script :=
  declaresOutside (.function ⟨"f", [], [.return (some (.integer 1 1)) 1], 1, ⟨0, 0⟩, 1⟩)
    (.call (.name "f" .operand 1) [] 1)

theorem parsed_assignsInside : assignsInside.Parsed := .inl ⟨⟨⟨[], "/"⟩, [], []⟩, 0, none,
  "\x7b global f; \x7b f = 1; \x7d \x7d return f;", by cbv⟩

theorem parsed_definesInside : definesInside.Parsed := .inl ⟨⟨⟨[], "/"⟩, [], []⟩, 0, none,
  "\x7b global f; \x7b function f() \x7b return 1; \x7d \x7d \x7d return f();", by cbv⟩

/-- A name that an inner block assigns to is made where an outer block says. -/
theorem global_declarations_heeded_assigned :
    let host : Host := fun name => do Exec.print name; return none
    let s := (State.initial 200).restart
    host.LeavesScopes ∧ assignsInside.Parsed ∧
      Exec.result? ((do Exec.value (← Exec.runScript (Interp.guarded State.ReadsGlobals host 9)
        assignsInside)) s) = some (.integer 1) := by
  intro host s
  have leaves : host.LeavesScopes := ⟨fun _ _ => .of_eq rfl rfl rfl, fun _ _ => rfl⟩
  refine ⟨leaves, parsed_assignsInside, ?_⟩
  rw [(global_declarations_heeded_iff leaves 9).1 assignsInside]
  cbv

/-- A function that an inner block defines is bound there, though an outer block has declared its
name as global. So the body of the inner block begins where the name is said to be global and is
found locally, and after the blocks no global scope binds it. -/
theorem overridden_declaration :
    let host : Host := fun _ => return none
    let s := (State.initial 200).restart
    let f : FunctionDef Stmt := ⟨"f", [], [.return (some (.integer 1 1)) 1], 1, ⟨0, 0⟩, 1⟩
    let t := finalState (Exec.prepareAll [.function f]
      (((s.pushBlockScope .empty).declareGlobal "f").pushBlockScope .empty))
    definesInside.Parsed ∧ t.isDeclaredGlobal "f" = true ∧ (t.findLocal? "f").isSome = true ∧
      Exec.failure? (Exec.runScript (Interp.guarded State.ReadsGlobals host 9) definesInside s) =
        some .emptyStack ∧
      Exec.failure? (Exec.runScript (Interp.withFuel host 9) definesInside s) =
        some (.script (.unknownIdentifier "f") (some 1)) := by
  intro host s f t
  have leaves : host.LeavesScopes := ⟨fun _ _ => .of_eq rfl rfl rfl, fun _ _ => rfl⟩
  refine ⟨parsed_definesInside, by cbv, by cbv, ?_, by cbv⟩
  rw [Exec.runScript_heeding leaves 9]
  cbv

end CellScript
