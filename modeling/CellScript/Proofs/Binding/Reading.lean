import CellScript.Proofs.Binding.Stable

/-!
# Runs that make no names

A name that is missing is made where it is evaluated as a location. `Interp.reading` is the
interpreter that gives up where this is about to happen. A run that it does not give up leaves every
scope as it was: parameters, members and declarations go to scopes that are gone when the run ends,
and nothing else binds names.

* `State.SameNames`: all scopes bind the same names to the same cells;
* `Exec.Bindless`: a step that leaves the scopes steady, adds no names to the innermost scope and
  the top one, and does what a second step does, unless it gives up;
* `agree_reading`: the reading interpreter stands for that of the language, and makes no names.
-/

namespace CellScript

open Exec (Framed FramedAlways failure?)

/-! ## Names -/

/-- The innermost local scope binds the same names to the same cells. -/
def State.SameInner (s t : State) : Prop := ∀ name, t.localAt? 0 name = s.localAt? 0 name

/-- All scopes bind the same names to the same cells. -/
structure State.SameNames (s t : State) : Prop where
  locals (i : Nat) (name : String) : t.localAt? i name = s.localAt? i name
  globals (i : Nat) (name : String) : t.globalAt? i name = s.globalAt? i name

namespace State

variable {s t u : State}

theorem SameInner.of_eq (h : t.locals = s.locals) : s.SameInner t := fun name => by
  unfold localAt?
  rw [h]

theorem SameInner.refl (s : State) : s.SameInner s := fun _ => rfl

theorem SameInner.trans (h : s.SameInner t) (h' : t.SameInner u) : s.SameInner u :=
  fun name => (h' name).trans (h name)

theorem sameInner_mapTop (s : State) {f : Scope → Scope} (hf : ∀ a, (f a).items = a.items) :
    s.SameInner (s.mapTop f) := by
  intro name
  unfold mapTop
  split
  · rfl
  · next top below hl => simp [localAt?, hl, hf]

theorem binds_eq (s : State) (name : String) : s.binds name = (s.globalAt? 0 name).isSome := by
  unfold binds globalAt?
  cases s.globals <;> rfl

/-- Only the innermost scope and the top one could have gained names. -/
theorem Steady.sameNames (h : s.Steady (fun _ => True) t) (inner : s.SameInner t) :
    s.SameNames t := by
  constructor
  · intro i name
    cases i with
    | zero => exact inner name
    | succ i =>
      have below := congrArg (·[i]?) h.locals.tail_eq
      simp only [List.getElem?_tail] at below
      rw [State.localAt?, State.localAt?, below]
  · intro i name
    cases i with
    | zero =>
      have kept := h.spares name trivial
      rw [binds_eq, binds_eq] at kept
      cases hs : s.globalAt? 0 name with
      | some c => exact h.globalAt? hs
      | none =>
        rw [hs] at kept
        cases ht : t.globalAt? 0 name with
        | none => rfl
        | some c =>
          rw [ht] at kept
          cases kept rfl
    | succ i =>
      have below := congrArg (·[i]?) h.globals.tail_eq
      simp only [List.getElem?_tail] at below
      rw [State.globalAt?, State.globalAt?, below]

end State

/-! ## Steps that make no names -/

namespace Exec

variable {α β : Type}

/-- The first step makes no names and leaves the scopes steady. It gives up or does what the second
step does. -/
structure Bindless (Q : α → Prop) (x y : Exec α) : Prop where
  framed : FramedAlways .emptyStack (fun _ => True) Q x y
  inner (s : State) : x.Ends s (fun _ t => s.SameInner t) fun _ t => s.SameInner t

namespace Bindless

variable {P Q : α → Prop} {x y : Exec α}

/-- A step that leaves the local scopes as they are. -/
theorem of_locals (framed : FramedAlways .emptyStack (fun _ => True) Q x y)
    (h : ∀ s, x.Ends s (fun _ t => t.locals = s.locals) fun _ t => t.locals = s.locals) :
    Bindless Q x y :=
  ⟨framed, fun s => (h s).mono (fun _ _ => .of_eq) fun _ _ => .of_eq⟩

theorem bind {R : β → Prop} {f g : α → Exec β} (hx : Bindless P x y)
    (hf : ∀ a, P a → Bindless R (f a) (g a)) : Bindless R (x >>= f) (y >>= g) := by
  refine ⟨hx.framed.bind fun a ha => (hf a ha).framed, fun s => ?_⟩
  refine Ends.bind (((hx.framed.steady s trivial).and (hx.inner s)).mono (fun _ _ h => h)
    fun _ _ h => h.2) ?_
  rintro a t ⟨⟨ha, -⟩, ht⟩
  exact ((hf a ha).inner t).mono (fun _ _ hu => ht.trans hu) fun _ _ hu => ht.trans hu

theorem mono (hQ : ∀ a, P a → Q a) (h : Bindless P x y) : Bindless Q x y :=
  ⟨h.framed.mono (fun _ h => h) hQ, h.inner⟩

theorem mapFailure {g : Failure → Failure} (hg : g .emptyStack = .emptyStack)
    (h : Bindless Q x y) : Bindless Q (mapFailure g x) (mapFailure g y) :=
  ⟨h.framed.mapFailure hg, fun s => Ends.mapFailure (h.inner s)⟩

theorem read {f : State → α} (h : ∀ s, Q (f s)) :
    Bindless Q (do return f (← get)) (do return f (← get)) :=
  of_locals (Framed.read h) fun _ => rfl

theorem update {f : State → State} (hl : ∀ s, (f s).locals = s.locals)
    (hg : ∀ s, (f s).globals = s.globals) (hi : ∀ s, (f s).instants = s.instants) :
    Bindless (fun _ => True) (modify f) (modify f) :=
  of_locals (Framed.update hl hg hi) hl

theorem addAnonymous (c : Cell) : Bindless (fun _ => True) (addAnonymous c) (addAnonymous c) := by
  refine ⟨Framed.addAnonymous c, fun s => .addAnonymous (fun _ => ?_) (fun top below _ => ?_) ?_⟩
  · exact s.sameInner_mapTop fun _ => rfl
  · exact .of_eq rfl
  · exact fun _ => .refl s

theorem setReturn (c : Cell) (line : Option Nat) :
    Bindless (fun _ => True) (setReturn c line) (setReturn c line) :=
  of_locals (Framed.setReturn c line) fun _ => .setReturn (fun _ _ _ => rfl) fun _ => rfl

/-- Where a name is read, nothing changes. -/
theorem evaluateName (name : String) (line : Nat) :
    Bindless (fun _ => True) (evaluateName name .operand line)
      (evaluateName name .operand line) := by
  refine bind (P := fun _ => True) (x := Exec.find? name) (read fun _ => trivial) fun c _ => ?_
  cases c with
  | some c => exact of_locals (.pure trivial) fun _ => rfl
  | none => exact of_locals (.throw _) fun _ => rfl

theorem loopParts : LoopParts (Bindless fun _ => True) (Bindless fun _ => True) where
  pure _ := of_locals (.pure trivial) fun _ => rfl
  bind hx hf := hx.bind fun a _ => hf a
  outOfFuel := of_locals (.throw _) fun _ => rfl
  clear _ := update (fun _ => rfl) (fun _ => rfl) fun _ => rfl
  loopExit := read fun _ => trivial
  whole h := bind (P := fun _ => True) (update (fun _ => rfl) (fun _ => rfl) fun _ => rfl)
    fun _ _ => h.bind fun _ _ => update (fun _ => rfl) (fun _ => rfl) fun _ => rfl

theorem runAll {f g : Stmt → Exec Unit} (h : ∀ st, Bindless (fun _ => True) (f st) (g st))
    (ss : List Stmt) : Bindless (fun _ => True) (runAll f ss) (runAll g ss) := by
  induction ss with
  | nil => exact of_locals (.pure trivial) fun _ => rfl
  | cons st ss ih =>
    refine (h st).bind fun _ _ => bind (P := fun _ => True) (read fun _ => trivial) fun s _ => ?_
    split
    · exact of_locals (.pure trivial) fun _ => rfl
    · exact ih

end Bindless

end Exec

/-! ## The logic -/

open Exec (Bindless)

/-- Being framed where all names are spared. -/
abbrev sparingAll : ProgramLogic (.sparing fun _ => True) :=
  framing Failure.passedOn_emptyStack fun _ => True

/-- Making no names, whatever the storage holds. -/
def bindlessSteps : StoreLogic (.sparing fun _ => True) where
  Rel _ _ Q x y := Bindless Q x y
  pure h := .of_locals (.pure h) fun _ => rfl
  bind := Bindless.bind
  mono _ := Bindless.mono
  throw f _ := .of_locals (.throw f) fun _ => rfl
  located _ := Bindless.mapFailure rfl
  storage := .read fun _ => trivial
  value _ := .read fun _ => trivial
  allocate _ h := .of_locals (.allocate fun s => (h s fun _ _ => trivial).1) fun _ => rfl
  find? _ := .read fun _ => trivial
  findType? _ := .read fun _ _ _ => trivial
  instant? := .read fun _ => trivial
  addAnonymous := Bindless.addAnonymous
  print _ := .update (fun _ => rfl) (fun _ => rfl) fun _ => rfl
  log _ _ _ := .update (fun _ => rfl) (fun _ => rfl) fun _ => rfl
  randomBetween _ _ := .of_locals (.of_scopes fun _ => ⟨trivial, rfl, rfl, rfl⟩) fun _ => rfl
  raise _ := .update (fun _ => rfl) (fun _ => rfl) fun _ => rfl
  setReturn := Bindless.setReturn

/-- Making no names is a logic of all programs that have no names as locations. Within a scope that
has just been opened, names may be declared. -/
def bindless : ProgramLogic (.sparing fun _ => True) where
  toStepLogic := bindlessSteps.steps fun name => by
    refine ⟨sparingAll.declareGlobal name, fun s => s.sameInner_mapTop fun a => ?_⟩
    unfold Scope.declareGlobal
    split <;> rfl
  Fresh l _ x y := sparingAll.Fresh l x y
  jumps _ h := h
  evaluateName name use line h := by
    cases use with
    | operand => exact .evaluateName name line
    | location => exact absurd trivial (h rfl)
  fresh {l} _ _ _ h := sparingAll.fresh (l := l) h.framed
  prepared {l} _ _ _ hd h := sparingAll.prepared (l := l) hd h.framed
  takeResult := sparingAll.takeResult
  inBlock h := by
    refine .of_locals h.inBlock fun s => ?_
    exact (h.inBlock_finished s.opened_block).1.mono (fun _ _ h => h.2.2) fun _ _ h => h.2
  fillObject obj r h := bindlessSteps.fillObject (l := .ofReturn) obj r fun members hm => by
    refine .of_locals (h.inRealization obj hm) fun s => ?_
    exact (h.inRealization_finished (s.opened_realizing obj hm)).1.mono (fun _ _ h => h.2.2)
      fun _ _ h => h.2
  loopBefore limit _ := Bindless.loopParts.loopBefore limit
  loopAfter limit _ := Bindless.loopParts.loopAfter limit

/-! ## The reading interpreter -/

/-- Whether evaluating an expression is about to make a name. -/
def Expr.makesName (e : Expr) (s : State) : Bool :=
  match e with
  | .name made .location _ => (s.find? made).isNone
  | _ => false

/-- Give up instead of making a name. -/
def Exec.reading (e : Expr) (x : Exec Cell) : Exec Cell := fun s =>
  if e.makesName s then .error .emptyStack s else x s

/-- The interpreter with the given fuel that gives up where it is about to make a name. -/
def Interp.reading (host : Host) : (fuel : Nat) → Interp
  | 0 => Interp.tied Exec.runAll host 0
  | k + 1 =>
    let self := reading host k
    { evaluate := fun e => Exec.reading e (Exec.evaluateWith self e)
      execute := Exec.executeWith k self
      run := Exec.runAll (Exec.executeWith k self)
      invoke := Exec.invokeWith host self
      text := Exec.textWith k self }

namespace Exec.Bindless

/-- What is no location is evaluated as ever. -/
theorem reading {e : Expr} {x y : Exec Cell} (he : ∀ name line, e ≠ .name name .location line)
    (h : Bindless (fun _ => True) x y) : Bindless (fun _ => True) (Exec.reading e x) y := by
  have never (s : State) : e.makesName s = false := by
    unfold Expr.makesName
    split
    · next name line => exact absurd rfl (he name line)
    · rfl
  have same : Exec.reading e x = x := by
    funext s
    simp [Exec.reading, never s]
  rw [same]
  exact h

/-- A name that is evaluated as a location is there, or the interpreter gives up. -/
theorem reading_name (name : String) (line : Nat) (p q : Interp) :
    Bindless (fun _ => True)
      (Exec.reading (.name name .location line) (evaluateWith p (.name name .location line)))
      (evaluateWith q (.name name .location line)) := by
  have outcome (s : State) :
      Exec.reading (.name name .location line) (evaluateWith p (.name name .location line)) s =
          .error .emptyStack s ∨
        ∃ c, Exec.reading (.name name .location line)
            (evaluateWith p (.name name .location line)) s = .ok c s ∧
          evaluateWith q (.name name .location line) s = .ok c s := by
    cases hf : s.find? name with
    | none =>
      left
      simp [Exec.reading, Expr.makesName, hf]
    | some c =>
      have found (r : Interp) : evaluateWith r (.name name .location line) s = .ok c s := by
        exact evaluateName_of_some hf .location line
      right
      refine ⟨c, ?_, found q⟩
      simp [Exec.reading, Expr.makesName, hf, found p]
  refine of_locals ⟨fun s _ => ?_, fun s _ => ?_⟩ fun s => ?_
  · unfold Ends
    rcases outcome s with h | ⟨c, h, -⟩
    · rw [h]
      exact .refl s
    · rw [h]
      exact ⟨trivial, .refl s⟩
  · rcases outcome s with h | ⟨c, h, h'⟩
    · rw [h]
      exact .inl rfl
    · rw [h, h']
      exact .inr rfl
  · unfold Ends
    rcases outcome s with h | ⟨c, h, -⟩
    · rw [h]
    · rw [h]

end Exec.Bindless

section

variable {p q : Interp}

/-- Interpreters that are related and make no names are framed. -/
theorem framed_of_bindless (h : bindless.AgreeOn .any p q) : sparingAll.AgreeOn .any p q where
  evaluate he := (h.evaluate he).framed
  execute hst := (h.execute hst).framed
  run hss := (h.run hss).framed
  invoke owner args line hf := (h.invoke owner args line hf).framed
  fullText c line ht := (h.fullText c line ht).framed

/-- A call makes no names, whatever its body makes. -/
theorem bindless_invokeWith {host : Host} (hh : Host.Steady (fun _ => True) host)
    (h : bindless.AgreeOn .any p q) (f : Callable) (owner : Option ObjectRef) (args : List Cell)
    (line : Option Nat) :
    Bindless (fun _ => True) (Exec.invokeWith host p f owner args line)
      (Exec.invokeWith host q f owner args line) := by
  refine bindlessSteps.inCall _ owner args line fun scope members hs hm => ?_
  have body : Framed .emptyStack (fun _ => True) State.Opened (fun _ => True)
      (Exec.runCallable host p f line) (Exec.runCallable host q f line) :=
    (framed_of_bindless h).runCallable line trivial (fun name _ _ => hh.framed name)
      fun _ body _ _ => ⟨(Fragment.making_full _).declaresAll body, fun _ _ => trivial⟩
  refine .of_locals (body.activate hs hm rfl) fun s => ?_
  exact (body.activate_finished rfl (s.opened_entered hs hm)).1.mono (fun _ _ h => h.2.2)
    fun _ _ h => h.2

theorem bindless_fullText (h : ∀ frames c line, Bindless (fun _ => True)
    (p.text frames c line) (q.text frames c line)) (c : Cell) (line : Option Nat) :
    Bindless (fun _ => True) (Exec.fullText p c line) (Exec.fullText q c line) :=
  Bindless.bind (P := fun _ => True) (.read fun _ => trivial) fun k _ => h k c line

end

/-- The reading interpreter does what the interpreter of the language does, unless it gives up, and
it makes no names. -/
theorem agree_reading {host : Host} (hh : Host.Steady (fun _ => True) host) (fuel : Nat) :
    bindless.AgreeOn .any (Interp.reading host fuel) (Interp.tied Exec.runAll host fuel) ∧
      ∀ frames c line, Bindless (fun _ => True) ((Interp.reading host fuel).text frames c line)
        ((Interp.tied Exec.runAll host fuel).text frames c line) := by
  have full := Fragment.making_full fun _ => ¬ True
  have out {α : Type} : Bindless (fun _ => True) (throw .outOfFuel : Exec α) (throw .outOfFuel) :=
    .of_locals (.throw _) fun _ => rfl
  induction fuel with
  | zero =>
    have text (frames : Nat) (c : Cell) (line : Option Nat) : Bindless (fun _ => True)
        ((Interp.reading host 0).text frames c line)
        ((Interp.tied Exec.runAll host 0).text frames c line) := out
    exact ⟨{
      evaluate := fun _ => out
      execute := fun _ => out
      run := fun _ => .runAll (fun _ => out) _
      invoke := fun _ _ _ _ => out
      fullText := fun c line _ => bindless_fullText text c line }, text⟩
  | succ k ih =>
    obtain ⟨on, texts⟩ := ih
    have execute (st : Stmt) := on.executeWith k (full.stmtParts false st)
    have text (frames : Nat) (c : Cell) (line : Option Nat) : Bindless (fun _ => True)
        ((Interp.reading host (k + 1)).text frames c line)
        ((Interp.tied Exec.runAll host (k + 1)).text frames c line) :=
      on.textWith trivial trivial texts k frames c line
    refine ⟨{
      evaluate := fun {e} _ => ?_
      execute := fun _ => execute _
      run := fun _ => .runAll execute _
      invoke := fun owner args line _ => bindless_invokeWith hh on _ owner args line
      fullText := fun c line _ => bindless_fullText text c line }, text⟩
    by_cases he : ∃ name line, e = .name name .location line
    · obtain ⟨name, line, rfl⟩ := he
      exact .reading_name name line (Interp.reading host k) (Interp.tied Exec.runAll host k)
    · have other (name : String) (line : Nat) : e ≠ .name name .location line :=
        fun same => he ⟨name, line, same⟩
      exact .reading other (on.evaluateWith (full.exprParts fun name line same =>
        absurd same (other name line)))

end CellScript
