import CellScript.Proofs.Fuel

/-!
# Bindings are stable

Whatever is run, completed or failed, the names that were bound before are bound to the same cells
afterwards, in every local scope on the stack and in every global scope. Only the innermost local
scope and the top global scope gain names, and blocks and loops leave even the innermost local scope
as it was.

A global name is made where there is no local scope, or where the current call declares the name as
global. `Interp.barring n` is the interpreter that gives up where an assignment is about to make `n`
in this way. A run after which the top global scope has gained `n` is one that it gives up.

* `agree_barring`: the barring interpreter stands for that of the language, and spares the name;
* `bindings_stable`: what any expression, statement, sequence or declaration does to the scopes.
-/

namespace CellScript

open Exec (Framed FramedAlways failure?)

/-! ## The interpreter that bars a name -/

/-- Whether evaluating an expression is about to make a name in a global scope. -/
def Expr.makesGlobal (e : Expr) (n : String) (s : State) : Bool :=
  match e with
  | .name made .location _ => made == n && (s.find? n).isNone && s.makesGlobal n
  | _ => false

/-- Give up instead of making a name in a global scope. -/
def Exec.barring (n : String) (e : Expr) (x : Exec Cell) : Exec Cell := fun s =>
  if e.makesGlobal n s then .error .emptyStack s else x s

/-- The interpreter with the given fuel that gives up where an assignment is about to make a name in
a global scope. -/
def Interp.barring (n : String) (host : Host) : (fuel : Nat) → Interp
  | 0 => Interp.tied Exec.runAll host 0
  | k + 1 =>
    let self := barring n host k
    { evaluate := fun e => Exec.barring n e (Exec.evaluateWith self e)
      execute := Exec.executeWith k self
      run := Exec.runAll (Exec.executeWith k self)
      invoke := Exec.invokeWith host self
      text := Exec.textWith k self }

namespace Exec.Framed

variable {n : String}

/-- Barring a name is of no matter where another one is evaluated. -/
theorem barring {e : Expr} {x y : Exec Cell} (he : ∀ line, e ≠ .name n .location line)
    (h : FramedAlways .emptyStack (· = n) (fun _ => True) x y) :
    FramedAlways .emptyStack (· = n) (fun _ => True) (barring n e x) y := by
  have never (s : State) : e.makesGlobal n s = false := by
    unfold Expr.makesGlobal
    split
    · next made line =>
      have other : made ≠ n := fun same => he line (by rw [same])
      simp [other]
    · rfl
  have same : Exec.barring n e x = x := by
    funext s
    simp [Exec.barring, never s]
  rw [same]
  exact h

/-- Where the barred name is evaluated, it is not made in a global scope. -/
theorem barring_name (line : Nat) (p q : Interp) :
    FramedAlways .emptyStack (· = n) (fun _ => True)
      (Exec.barring n (.name n .location line) (evaluateWith p (.name n .location line)))
      (evaluateWith q (.name n .location line)) := by
  have barred {s : State} (hm : (Expr.name n .location line).makesGlobal n s = true) :
      Exec.barring n (.name n .location line) (evaluateWith p (.name n .location line)) s =
        .error .emptyStack s := by
    simp [Exec.barring, hm]
  have evaluated {s : State} (hm : ¬ (Expr.name n .location line).makesGlobal n s = true) :
      Exec.barring n (.name n .location line) (evaluateWith p (.name n .location line)) s =
        evaluateName n .location line s := by
    simp only [Exec.barring, hm]
    rfl
  refine ⟨fun s _ => ?_, fun s _ => ?_⟩
  · unfold Ends
    by_cases hm : (Expr.name n .location line).makesGlobal n s = true
    · rw [barred hm]
      exact .refl s
    · rw [evaluated hm]
      refine (evaluateName_ends n .location line fun _ hf _ => ?_).mono
        (fun _ _ ht => ⟨trivial, ht⟩) fun _ _ ht => ht
      simpa [Expr.makesGlobal, hf] using hm
  · by_cases hm : (Expr.name n .location line).makesGlobal n s = true
    · rw [barred hm]
      exact .inl rfl
    · rw [evaluated hm]
      exact .inr rfl

end Exec.Framed

theorem Failure.passedOn_emptyStack : Failure.PassedOn .emptyStack := fun _ => ⟨rfl, rfl⟩

/-- The interpreter that bars a name does what the interpreter of the language does, unless it gives
up, and it does not make the name. -/
theorem agree_barring {host : Host} {n : String} (hh : Host.Steady (· = n) host) (fuel : Nat) :
    (framing Failure.passedOn_emptyStack (· = n)).AgreeOn .any (Interp.barring n host fuel)
        (Interp.tied Exec.runAll host fuel) ∧
      ∀ frames c line, FramedAlways .emptyStack (· = n) (fun _ => True)
        ((Interp.barring n host fuel).text frames c line)
        ((Interp.tied Exec.runAll host fuel).text frames c line) := by
  have full := Fragment.making_full fun name => ¬ name = n
  induction fuel with
  | zero =>
    have out (frames : Nat) (c : Cell) (line : Option Nat) :
        FramedAlways .emptyStack (· = n) (fun _ => True)
          ((Interp.barring n host 0).text frames c line)
          ((Interp.tied Exec.runAll host 0).text frames c line) := .throw .outOfFuel
    exact ⟨{
      evaluate := fun _ => .throw .outOfFuel
      execute := fun _ => .throw .outOfFuel
      run := fun _ => .runAll (fun _ => .throw .outOfFuel) _
      invoke := fun _ _ _ _ => .throw .outOfFuel
      fullText := fun c line _ => framed_fullText out c line }, out⟩
  | succ k ih =>
    obtain ⟨on, texts⟩ := ih
    have execute (st : Stmt) := on.executeWith k (full.stmtParts false st)
    have text (frames : Nat) (c : Cell) (line : Option Nat) :
        FramedAlways .emptyStack (· = n) (fun _ => True)
          ((Interp.barring n host (k + 1)).text frames c line)
          ((Interp.tied Exec.runAll host (k + 1)).text frames c line) :=
      on.textWith trivial trivial texts k frames c line
    refine ⟨{
      evaluate := fun {e} _ => ?_
      execute := fun _ => execute _
      run := fun _ => .runAll execute _
      invoke := fun owner args line _ => framed_invokeWith hh on _ owner args line
      fullText := fun c line _ => framed_fullText text c line }, text⟩
    by_cases he : ∃ line, e = .name n .location line
    · obtain ⟨line, rfl⟩ := he
      exact .barring_name line (Interp.barring n host k) (Interp.tied Exec.runAll host k)
    · refine .barring (fun line same => he ⟨line, same⟩) (on.evaluateWith (full.exprParts ?_))
      rintro name line rfl rfl
      exact he ⟨line, rfl⟩

/-! ## Nodes -/

/-- The cell that a name is bound to in a local scope, counted from the innermost one. -/
def State.localAt? (s : State) (i : Nat) (name : String) : Option Cell :=
  s.locals[i]?.bind fun f => f.scope.items.find? name

/-- The cell that a name is bound to in a global scope, counted from the top one. -/
def State.globalAt? (s : State) (i : Nat) (name : String) : Option Cell :=
  s.globals[i]?.bind fun scope => scope.items.find? name

/-- A block or a loop. -/
def Stmt.isBlock : Stmt → Bool
  | .block _ _ => true
  | .loop _ _ => true
  | .whileLoop _ _ _ => true
  | .doWhile _ _ _ => true
  | .forLoop _ _ _ _ _ => true
  | _ => false

/-- What a step does to the scopes of the state in which it is begun, where `watched n` does the
same as the step, but gives up where the name `n` may be made in a global scope. -/
structure Exec.Stable {α : Type} (x : Exec α) (watched : String → Exec α) (s : State) : Prop where
  /-- Names stay bound to their cells in all local scopes. -/
  localAt? (i : Nat) (name : String) (c : Cell) : s.localAt? i name = some c →
    (finalState (x s)).localAt? i name = some c
  /-- Names stay bound to their cells in all global scopes. -/
  globalAt? (i : Nat) (name : String) (c : Cell) : s.globalAt? i name = some c →
    (finalState (x s)).globalAt? i name = some c
  /-- The local scopes are the same ones, and those below the innermost one have not changed. -/
  locals : (finalState (x s)).locals.length = s.locals.length ∧
    (finalState (x s)).locals.tail = s.locals.tail
  /-- The global scopes are the same ones, and those below the top one have not changed. -/
  globals : (finalState (x s)).globals.length = s.globals.length ∧
    (finalState (x s)).globals.tail = s.globals.tail
  /-- The watched step does the same unless it gives up. -/
  faithful (n : String) : failure? (watched n s) = some .emptyStack ∨ watched n s = x s
  /-- If the top global scope has gained a name, then the watched step has given up before. -/
  made (n : String) : s.binds n = false → (finalState (x s)).binds n = true →
    failure? (watched n s) = some .emptyStack ∧ (finalState (watched n s)).binds n = false

section

variable {spared : String → Prop} {s t : State} {i : Nat} {name : String} {c : Cell}

theorem State.Steady.localAt? (h : s.Steady spared t) (hc : s.localAt? i name = some c) :
    t.localAt? i name = some c := by
  obtain ⟨f, hf, hname⟩ := Option.bind_eq_some_iff.1 hc
  obtain ⟨g, hg, hfg⟩ := h.locals.getElem? Frame.Extends.refl hf
  exact Option.bind_eq_some_iff.2 ⟨g, hg, hfg.scope.items name c hname⟩

theorem State.Steady.globalAt? (h : s.Steady spared t) (hc : s.globalAt? i name = some c) :
    t.globalAt? i name = some c := by
  obtain ⟨a, ha, hname⟩ := Option.bind_eq_some_iff.1 hc
  obtain ⟨b, hb, hab⟩ := h.globals.getElem? Scope.Extends.refl ha
  exact Option.bind_eq_some_iff.2 ⟨b, hb, hab.items name c hname⟩

end

/-- A step that leaves the scopes steady is stable, if the watched steps spare their names. -/
theorem Exec.Stable.of_steady {α : Type} {x : Exec α} {watched : String → Exec α} {s : State}
    (h : s.Steady (fun _ => False) (finalState (x s)))
    (same : ∀ n, failure? (watched n s) = some .emptyStack ∨ watched n s = x s)
    (spares : ∀ n, s.Steady (· = n) (finalState (watched n s))) : Exec.Stable x watched s where
  localAt? _ _ _ := h.localAt?
  globalAt? _ _ _ := h.globalAt?
  locals := ⟨h.locals.length_eq, h.locals.tail_eq⟩
  globals := ⟨h.globals.length_eq, h.globals.tail_eq⟩
  faithful := same
  made n hs ht := by
    have spared : (finalState (watched n s)).binds n = false := by
      refine Bool.eq_false_iff.2 fun bound => ?_
      simp [(spares n).spares n rfl bound] at hs
    refine ⟨(same n).resolve_right fun equal => ?_, spared⟩
    rw [equal, ht] at spared
    cases spared

theorem Exec.Framed.final {α : Type} {gaveUp : Failure} {spared : String → Prop} {x y : Exec α}
    (h : FramedAlways gaveUp spared (fun _ => True) x y) (s : State) :
    s.Steady spared (finalState (x s)) :=
  ((h.steady s trivial).mono (fun _ _ h => h.2) fun _ _ h => h).final

theorem Exec.Framed.stable {α : Type} {x : Exec α} {watched : String → Exec α}
    (h : Exec.Outlasted x x)
    (hw : ∀ n, FramedAlways .emptyStack (· = n) (fun _ => True) (watched n) x) (s : State) :
    Exec.Stable x watched s :=
  .of_steady (h.final s) (fun n => (hw n).same s trivial) fun n => (hw n).final s

/-- What stands in a block or a loop is framed in the scope that is opened for it. -/
theorem inBlock_of_isBlock {p : Interp} (h : outlasting.AgreeOn .any p p) (limit : Nat) {st : Stmt}
    (hst : st.isBlock = true) :
    ∃ x, Exec.executeWith limit p st = Exec.inBlock x ∧
      Framed .outOfFuel (fun _ => False) State.Opened (fun _ => True) x x := by
  have execute (inLoop : Bool) (st : Stmt) :
      outlasting.Rel (.within inLoop) (fun _ => True) (p.execute st) (p.execute st) :=
    h.execute trivial
  have holds (condition : Expr) (line : Nat) : outlasting.Holds (Exec.holds p condition line)
      (Exec.holds p condition line) := h.holds line trivial
  have nothing {α : Type} (a : α) (l : Flags) :
      outlasting.Rel l (fun _ => True) (pure a : Exec α) (pure a) := Framed.pure trivial
  cases st with
  | block body line =>
    have any : Nodes.any.all false body := fun _ _ => trivial
    exact ⟨_, rfl, h.prepareAndRun ((Fragment.making_full _).declaresAll body) any⟩
  | loop body line =>
    exact ⟨_, rfl, outlasting.fresh (outlasting.loopBefore limit trivial (nothing true _)
      (execute true body) (nothing () _))⟩
  | whileLoop condition body line =>
    exact ⟨_, rfl, outlasting.fresh (outlasting.loopBefore limit trivial (holds condition line)
      (execute true body) (nothing () _))⟩
  | doWhile condition body line =>
    exact ⟨_, rfl, outlasting.fresh (outlasting.loopAfter limit trivial (holds condition line)
      (execute true body))⟩
  | forLoop init condition step body line =>
    exact ⟨_, rfl, outlasting.fresh (outlasting.bind (execute false init) fun _ _ =>
      outlasting.loopBefore limit trivial (holds condition line) (execute true body)
        (execute false step))⟩
  | _ => cases hst

/-- A block or a loop leaves the local scopes as they were. -/
theorem locals_of_isBlock {host : Host} (hh : Host.Steady (fun _ => False) host) (fuel : Nat)
    {st : Stmt} (hst : st.isBlock = true) (s : State) :
    (finalState ((Interp.withFuel host fuel).execute st s)).locals = s.locals := by
  cases fuel with
  | zero => rfl
  | succ k =>
    obtain ⟨x, executed, framed⟩ := inBlock_of_isBlock (Interp.outlasts hh (Nat.le_refl k)).1 k hst
    change (finalState (Exec.executeWith k (Interp.withFuel host k) st s)).locals = _
    rw [executed]
    exact ((framed.inBlock_finished s.opened_block).1.mono (fun _ _ h => h.2.2)
      fun _ _ h => h.2).final

/-- Give up unless there is a local scope. -/
def Exec.indoors {α : Type} (x : Exec α) : Exec α := fun s =>
  if s.locals.isEmpty then .error .emptyStack s else x s

/-- Whatever is run in whatever state, completed or failed, names that were bound stay bound to
their cells, and only the innermost local scope and the top global scope gain names. Blocks and
loops leave all local scopes as they were. The top global scope gains a name only where an
assignment makes the name while there is no local scope or the current call declares it as global;
declarations, which are made where no local scope exists or where one has just been opened, add to
it only in the first case. -/
theorem bindings_stable {host : Host} (hh : Host.Steady (fun _ => True) host) (fuel : Nat)
    (s : State) :
    let interp := Interp.withFuel host fuel
    let barring n := Interp.barring n host fuel
    (∀ e, Exec.Stable (interp.evaluate e) (fun n => (barring n).evaluate e) s) ∧
      (∀ st, Exec.Stable (interp.execute st) (fun n => (barring n).execute st) s) ∧
      (∀ st, st.isBlock = true → (finalState (interp.execute st s)).locals = s.locals) ∧
      (∀ ss, Exec.Stable (interp.run ss) (fun n => (barring n).run ss) s) ∧
      ∀ ss, s.Bare →
        Exec.Stable (Exec.prepareAll ss) (fun _ => Exec.indoors (Exec.prepareAll ss)) s := by
  intro interp barring
  have steady : Host.Steady (fun _ => False) host :=
    fun name s => (hh name s).mono fun _ h => h.elim
  have self := (Interp.outlasts steady (Nat.le_refl fuel)).1
  have agree (n : String) :
      (framing Failure.passedOn_emptyStack (· = n)).AgreeOn .any (barring n) interp := by
    have agrees := (agree_barring (n := n) (fun name s => (hh name s).mono fun _ _ => trivial)
      fuel).1
    rwa [← Interp.withFuel_eq_tied] at agrees
  have any (ss : List Stmt) : Nodes.any.all false ss := fun _ _ => trivial
  have anyOne (st : Stmt) : Nodes.any.stmt false st := trivial
  refine ⟨fun e => ?_, fun st => ?_, fun st hst => ?_, fun ss => ?_, fun ss hs => ?_⟩
  · exact Framed.stable (self.evaluate trivial) (fun n => (agree n).evaluate trivial) s
  · exact Framed.stable (self.execute (anyOne st)) (fun n => (agree n).execute (anyOne st)) s
  · exact locals_of_isBlock steady fuel hst s
  · exact Framed.stable (self.run (any ss)) (fun n => (agree n).run (any ss)) s
  · have declared := (Exec.prepareAll_ends ss hs).final.steady
    rcases hs with hs | hs
    · have refused : Exec.indoors (Exec.prepareAll ss) s = .error .emptyStack s := by
        simp [Exec.indoors, hs]
      refine .of_steady (declared.mono fun _ h => h.elim) (fun n => ?_) fun n => ?_
      · rw [refused]
        exact .inl rfl
      · rw [refused]
        exact .refl s
    · have inside : Exec.indoors (Exec.prepareAll ss) s = Exec.prepareAll ss s := by
        simp [Exec.indoors, hs.ne_nil]
      refine .of_steady (declared.mono fun _ h => h.elim) (fun n => .inr inside) fun n => ?_
      rw [inside]
      exact declared.mono fun _ _ => hs

/-- A block that declares a name as global and assigns to it makes the name in the top global scope
and leaves the local scopes as they were. The interpreter that bars the name gives up. -/
theorem bindings_stable_declaring :
    let host : Host := fun name => do Exec.print name; return none
    let block : Stmt := .block [.global "g" 1, .assign (.name "g" .location 2) (.integer 1 2) 2] 1
    let s := (State.initial 200).restart
    let after := finalState ((Interp.withFuel host 5).execute block s)
    Host.Steady (fun _ => True) host ∧ s.binds "g" = false ∧ after.binds "g" = true ∧
      after.locals = s.locals ∧
      failure? ((Interp.barring "g" host 5).execute block s) = some .emptyStack := by
  intro host block s after
  have steady : Host.Steady (fun _ => True) host := fun _ _ => .of_eq rfl rfl rfl
  obtain ⟨-, stable, blocks, -⟩ := bindings_stable steady 5 s
  have free : s.binds "g" = false := by decide
  have gained : after.binds "g" = true := by cbv
  exact ⟨steady, free, gained, blocks block rfl, ((stable block).made "g" free gained).1⟩

end CellScript
