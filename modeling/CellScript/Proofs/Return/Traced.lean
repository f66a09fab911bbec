import CellScript.Proofs.Congruence.Interp
import CellScript.Session

/-!
# The events of an activation

An activation is the run of a script or of the body of a function. What it executes of its own
statements, at any nesting of blocks, branches, loops, includes and realizations, is written down as
events; what the functions that it calls execute is not.

* `Event`: a statement is begun, a `return` has stored its result, or the call of `realize` at the
  end of a realization has taken a raised `return` back;
* `Traced`: a step together with its events. The events follow the run, and `Traced.run` forgets
  them;
* `Traced.statement`: the statements of the language with their events, and
  `Traced.run_statement`: without them, they are those of the interpreter;
* `Activation`: a script or the body of a function.
-/

namespace CellScript

/-- What happens in an activation. -/
inductive Event
  | began (st : Stmt)
  | returned (c : Cell)
  | takenBack

/-- A step and the events in it, by the state in which it is begun. -/
structure Traced (α : Type) where
  run : Exec α
  events : State → List Event

namespace Traced

variable {α β : Type}

/-- A step without events. -/
def silent (x : Exec α) : Traced α := ⟨x, fun _ => []⟩

/-- An event. -/
def emit (e : Event) : Traced Unit := ⟨pure (), fun _ => [e]⟩

/-- The events of a second step come after those of the first one, if that completes. -/
def andThen (x : Traced α) (f : α → Traced β) : Traced β where
  run := x.run >>= fun a => (f a).run
  events s := x.events s ++
    match x.run s with
    | .ok a t => (f a).events t
    | .error _ _ => []

instance : Monad Traced where
  pure a := silent (pure a)
  bind := andThen

instance : MonadLift Exec Traced := ⟨silent⟩

/-- Finish a step whatever happens in it. -/
def ensuring (x : Traced α) (finish : Exec Unit) : Traced α :=
  ⟨Exec.ensuring x.run finish, x.events⟩

/-- Change the failure of a step. -/
def mapFailure (f : Failure → Failure) (x : Traced α) : Traced α :=
  ⟨Exec.mapFailure f x.run, x.events⟩

/-- A step whose only event is that it takes a raised `return` back. -/
def watched (x : Exec α) : Traced α where
  run := x
  events s :=
    match x s with
    | .ok _ t => if s.flags.returning && !t.flags.returning then [.takenBack] else []
    | .error _ _ => []

section

variable {x : Traced α} {f : α → Traced β} {s t : State}

theorem events_bind_ok {a : α} (h : x.run s = .ok a t) :
    (x >>= f).events s = x.events s ++ (f a).events t := by
  change x.events s ++ _ = _
  rw [h]

theorem events_bind_error {e : Failure} (h : x.run s = .error e t) :
    (x >>= f).events s = x.events s := by
  change x.events s ++ _ = _
  rw [h, List.append_nil]

end

/-! ## Constructs -/

/-- Take turns as long as they ask for another one, at most `limit` of them. -/
def iterate : (limit : Nat) → (turn : Traced Bool) → Traced Unit
  | 0, _ => silent (throw .outOfFuel)
  | n + 1, turn => do
    if ← turn then iterate n turn else pure ()

/-- Run statements until one of them cuts the normal course short. -/
def runAll (execute : Stmt → Traced Unit) : List Stmt → Traced Unit
  | [] => pure ()
  | st :: rest => do
    execute st
    if (← silent get).flags.any then pure () else runAll execute rest

/-- Run a step in a block scope of its own. -/
def inBlock (x : Traced α) : Traced α := do
  silent (modify (·.pushBlockScope .empty))
  ensuring x Exec.popLocalScope

/-- A loop that asks before each turn. -/
def loopBefore (limit : Nat) (condition : Exec Bool) (body next : Traced Unit) : Traced Unit := do
  silent (Exec.clear .ofBreak)
  iterate limit do
    if ← silent (Exec.isRaised .loopExit) then return false
    if !(← silent condition) then return false
    silent (Exec.clear .ofContinue)
    body
    if ← silent (Exec.isRaised .loopExit) then return false
    next
    return true
  silent (Exec.clear .loopOwned)

/-- A loop that asks after each turn. -/
def loopAfter (limit : Nat) (condition : Exec Bool) (body : Traced Unit) : Traced Unit := do
  silent (Exec.clear .ofBreak)
  iterate limit do
    silent (Exec.clear .ofContinue)
    body
    if ← silent (Exec.isRaised .loopExit) then return false
    silent condition
  silent (Exec.clear .loopOwned)

/-- Fill an object by a step that runs with its members in scope. -/
def fillObject (obj : Cell) (r : ObjectRef) (x : Traced Unit) : Traced Unit := do
  let members ← silent (Exec.memberScope r)
  silent (modify (·.pushFunctionScope members))
  silent (Exec.pushInstant obj)
  let run := do
    x
    silent Exec.innermostNames
  let bound ← ensuring run do
    Exec.popInstant
    Exec.popLocalScope
  silent (Exec.promote r bound.entries)
  silent (Exec.bindParent r)

/-- Realize an object. -/
def realize (self : Interp) (execute : Stmt → Traced Unit) (typeName : String) (body : List Stmt)
    (line : Nat) : Traced Unit := do
  match ← silent (Exec.findType? typeName) with
  | none => silent (Exec.fail (.unknownType typeName) (some line))
  | some t =>
    let r ← silent (Exec.makeObject t)
    let obj ← silent (Exec.newCell (.object r))
    silent (Exec.callIfMethod self obj typeName line)
    fillObject obj r do
      silent (Exec.prepareAll body)
      runAll execute body
    watched (Exec.callIfMethod self obj "realize" line)
    silent (Exec.addAnonymous obj)

/-- Run a step with more frames, for the deepest run that the limit on calls allows. -/
def withFrames (x : Traced α) : Traced α := do
  let previous ← silent get
  let frames := previous.frames + Exec.framesPerCall * previous.maxCallDepth
  if frames < minInt || maxInt < frames then silent (throw (.number .overflow))
  if frames < 1 then silent (throw .noFrames)
  silent (modify fun s => { s with frames := frames.toNat })
  ensuring x (modify fun s => { s with frames := previous.frames })

/-- Run a statement whose parts run by `execute`. What has no statements in it has no events. -/
def executeWith (limit : Nat) (self : Interp) (execute : Stmt → Traced Unit) (st : Stmt) :
    Traced Unit :=
  match st with
  | .realize typeName body line => realize self execute typeName body line
  | .include _ body _ => runAll execute body
  | .block body _ => inBlock do
    silent (Exec.prepareAll body)
    runAll execute body
  | .branch condition positive negative line => do
    if ← silent (Exec.holds self condition line) then execute positive
    else match negative with
      | some st => execute st
      | none => pure ()
  | .loop body _ => inBlock (loopBefore limit (pure true) (execute body) (pure ()))
  | .whileLoop condition body line =>
    inBlock (loopBefore limit (Exec.holds self condition line) (execute body) (pure ()))
  | .doWhile condition body line =>
    inBlock (loopAfter limit (Exec.holds self condition line) (execute body))
  | .forLoop init condition step body line => inBlock do
    execute init
    loopBefore limit (Exec.holds self condition line) (execute body) (execute step)
  | .return value line => do
    let c ← match value with
      | some e => silent (self.evaluate e)
      | none => silent (Exec.newCell .undefined)
    silent (Exec.setReturn c (some line))
    emit (.returned c)
    silent (Exec.raise .ofReturn)
  | st => silent (Exec.executeWith limit self st)

/-- The statements of the language with the events of the activation that they are in. -/
def statement (host : Host) : (fuel : Nat) → Stmt → Traced Unit
  | 0, st => do
    emit (.began st)
    silent (throw .outOfFuel)
  | n + 1, st => do
    emit (.began st)
    executeWith n (Interp.withFuel host n) (statement host n) st

/-! ## Forgetting the events -/

@[simp] theorem run_pure (a : α) : (pure a : Traced α).run = pure a := rfl

@[simp] theorem run_silent (x : Exec α) : (silent x).run = x := rfl

@[simp] theorem run_emit (e : Event) : (emit e).run = pure () := rfl

@[simp] theorem run_watched (x : Exec α) : (watched x).run = x := rfl

@[simp] theorem run_bind (x : Traced α) (f : α → Traced β) :
    (x >>= f).run = x.run >>= fun a => (f a).run := rfl

@[simp] theorem run_ensuring (x : Traced α) (finish : Exec Unit) :
    (ensuring x finish).run = Exec.ensuring x.run finish := rfl

@[simp] theorem run_mapFailure (f : Failure → Failure) (x : Traced α) :
    (mapFailure f x).run = Exec.mapFailure f x.run := rfl

@[simp] theorem run_ite (b : Prop) [Decidable b] (x y : Traced α) :
    (if b then x else y).run = if b then x.run else y.run := by
  split <;> rfl

@[simp] theorem run_iterate (n : Nat) (turn : Traced Bool) :
    (iterate n turn).run = Exec.iterate n turn.run := by
  induction n with
  | zero => rfl
  | succ n ih => simp only [iterate, Exec.iterate_succ, run_bind, run_ite, run_pure, ih]

theorem run_runAll {f : Stmt → Traced Unit} {g : Stmt → Exec Unit} (h : ∀ st, (f st).run = g st)
    (ss : List Stmt) : (runAll f ss).run = Exec.runAll g ss := by
  induction ss with
  | nil => rfl
  | cons st rest ih =>
    simp only [runAll, Exec.runAll, run_bind, run_silent, run_ite, run_pure, h, ih]

@[simp] theorem run_inBlock (x : Traced α) : (inBlock x).run = Exec.inBlock x.run := rfl

@[simp] theorem run_loopBefore (limit : Nat) (condition : Exec Bool) (body next : Traced Unit) :
    (loopBefore limit condition body next).run =
      Exec.loopBefore limit condition body.run next.run := by
  simp only [loopBefore, Exec.loopBefore, run_bind, run_silent, run_iterate, run_ite, run_pure]

@[simp] theorem run_loopAfter (limit : Nat) (condition : Exec Bool) (body : Traced Unit) :
    (loopAfter limit condition body).run = Exec.loopAfter limit condition body.run := by
  simp only [loopAfter, Exec.loopAfter, run_bind, run_silent, run_iterate, run_ite, run_pure]

@[simp] theorem run_fillObject (obj : Cell) (r : ObjectRef) (x : Traced Unit) :
    (fillObject obj r x).run = Exec.fillObject obj r x.run := by
  simp only [fillObject, Exec.fillObject, Exec.inRealization, run_bind, run_silent, run_ensuring,
    bind_assoc]

@[simp] theorem run_withFrames (x : Traced α) :
    (withFrames x).run = Exec.withFrames x.run := by
  simp only [withFrames, Exec.withFrames, run_bind, run_silent, run_ite, run_ensuring]

theorem run_realize (self : Interp) {f : Stmt → Traced Unit} (typeName : String) (body : List Stmt)
    (line : Nat) (h : (runAll f body).run = self.run body) :
    (realize self f typeName body line).run = Exec.realize self typeName body line := by
  simp only [realize, Exec.realize, run_bind, run_silent]
  congr 1
  funext t
  cases t with
  | none => rfl
  | some t => simp only [run_bind, run_silent, run_fillObject, run_watched, h]

theorem run_executeWith (limit : Nat) (self : Interp) {f : Stmt → Traced Unit}
    (hf : ∀ st, (f st).run = self.execute st) (hr : ∀ ss, (runAll f ss).run = self.run ss)
    (st : Stmt) : (executeWith limit self f st).run = Exec.executeWith limit self st := by
  cases st with
  | realize typeName body line => exact run_realize self typeName body line (hr body)
  | «include» path body line => exact hr body
  | block body line =>
    simp only [executeWith, Exec.executeWith, run_inBlock, run_bind, run_silent, hr]
  | branch condition positive negative line =>
    simp only [executeWith, Exec.executeWith, run_bind, run_silent, run_ite, hf]
    cases negative with
    | none => rfl
    | some st => simp only [hf]
  | loop body line =>
    simp only [executeWith, Exec.executeWith, run_inBlock, run_loopBefore, hf, run_pure]
  | whileLoop condition body line =>
    simp only [executeWith, Exec.executeWith, run_inBlock, run_loopBefore, hf, run_pure]
  | doWhile condition body line =>
    simp only [executeWith, Exec.executeWith, run_inBlock, run_loopAfter, hf]
  | forLoop init condition step body line =>
    simp only [executeWith, Exec.executeWith, run_inBlock, run_bind, run_loopBefore, hf]
  | «return» value line =>
    cases value with
    | none => rfl
    | some e => rfl
  | expression _ | assign _ _ _ | update _ _ _ _ | nop _ | «break» _ | «continue» _ | global _ _
  | function _ | classDef _ _ _ _ _ => rfl

/-- Without their events, traced statements are those of the interpreter. -/
theorem run_statement (host : Host) (n : Nat) (st : Stmt) :
    (statement host n st).run = (Interp.withFuel host n).execute st := by
  induction n generalizing st with
  | zero =>
    simp only [statement, run_bind, run_emit, run_silent, pure_bind]
    simp only [Interp.withFuel, Interp.executeAt]
  | succ n ih =>
    simp only [statement, run_bind, run_emit, pure_bind]
    rw [run_executeWith n _ ih fun ss => run_runAll ih ss]
    simp only [Interp.withFuel, Interp.executeAt]

end Traced

/-! ## Activations -/

/-- What has a result of its own: a script or the body of a function. -/
inductive Activation
  | script (script : Script)
  | function (body : List Stmt)

namespace Activation

/-- The statements of an activation. -/
def statements : Activation → List Stmt
  | script sc => sc.statements
  | function ss => ss

/-- The activation is that of a script or of a function that the script defines. -/
inductive Of (sc : Script) : Activation → Prop
  | script : Of sc (.script sc)
  | function {f : FunctionDef Stmt} : (Stmt.function f).Among sc.statements →
    Of sc (.function f.body)
  | method {isInstant : Bool} {name : String} {methods : List (FunctionDef Stmt)} {id : DefId}
    {line : Nat} {f : FunctionDef Stmt} :
    (Stmt.classDef isInstant name methods id line).Among sc.statements → f ∈ methods →
    Of sc (.function f.body)

/-- Run an activation and give its result. -/
def exec (interp : Interp) : Activation → Exec Cell
  | script sc => Exec.runScript interp sc
  | function body => Exec.runBody interp body

/-- Declare what statements define and run them. -/
def body (host : Host) (n : Nat) (ss : List Stmt) : Traced Unit := do
  Traced.silent (Exec.prepareAll ss)
  Traced.runAll (Traced.statement host n) ss

/-- An activation with its events. -/
def traced (host : Host) (n : Nat) : Activation → Traced Cell
  | script sc => do
    Traced.silent Exec.beginScript
    Traced.mapFailure (Exec.overrun none) (Traced.withFrames (body host n sc.statements))
    Traced.silent Exec.endScript
  | function ss => do
    Traced.silent do Exec.pushReturn (← Exec.newCell .undefined)
    body host n ss
    Traced.silent (Exec.clear .ofReturn)
    Traced.silent Exec.popReturn

theorem run_body (host : Host) (n : Nat) (ss : List Stmt) : (body host n ss).run =
    (do Exec.prepareAll ss; (Interp.withFuel host n).run ss) := by
  simp only [body, Traced.run_bind, Traced.run_silent,
    Traced.run_runAll (Traced.run_statement host n)]
  rfl

/-- Without its events, a traced activation is that of the interpreter. -/
theorem run_traced (host : Host) (n : Nat) (a : Activation) :
    (a.traced host n).run = a.exec (Interp.withFuel host n) := by
  cases a with
  | script sc =>
    simp only [traced, exec, Exec.runScript, Traced.run_bind, Traced.run_silent,
      Traced.run_mapFailure, Traced.run_withFrames, run_body]
  | function ss =>
    simp only [traced, exec, Exec.runBody, Exec.takeResult, Traced.run_bind, Traced.run_silent,
      run_body, bind_assoc]

end Activation

end CellScript
