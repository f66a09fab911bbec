import CellScript.Proofs.Alongside
import CellScript.Proofs.Binding.Hoisting
import CellScript.Proofs.Binding.Layers

/-!
# Global declarations are heeded

What a script declares as global is looked for and made among the global names until the scope of
the declaration ends, except where a block defines a function of such a name
(`Binding.Hoisting`). There is no other exception: an assignment makes a name that is declared as
global in a global scope, calls and realizations open scopes that see no declaration, and whatever
a block or a loop has bound goes with its scope.

* `Interp.heeding`: the interpreter that gives up in place of the body of a block that overrides a
  declaration;
* `agree_heeding`: it does what the interpreter of the language does, unless it gives up;
* `ObjectOrder.heeding`: where the readings of declarations agree, they go on to agree;
* `heeded`: doing the same where they agree is a logic of all that programs do, but for blocks.
-/

namespace CellScript

open Exec (Along Alongside Framed FramedAlways failure?)

/-! ## The interpreter that gives up at overriding blocks -/

/-- Run a block, or give up in place of its body if it overrides a declaration. -/
def Exec.runHeeding (self : Interp) (body : List Stmt) : Exec Unit := fun s =>
  inBlock (prepareAll body >>= fun _ =>
    if s.overrides body then throw .emptyStack else self.run body) s

/-- Run a statement; where there is fuel for their bodies, blocks are run as above. -/
def Exec.executeHeeding (self : Interp) : (limit : Nat) → Stmt → Exec Unit
  | _ + 1, .block body _ => runHeeding self body
  | limit, st => executeWith limit self st

/-- The interpreter with the given fuel that gives up in place of the body of a block that overrides
a declaration. -/
def Interp.heeding (host : Host) : (fuel : Nat) → Interp
  | 0 => Interp.withFuel host 0
  | n + 1 =>
    let self := heeding host n
    let execute := Exec.executeHeeding self n
    { evaluate := Exec.evaluateWith self
      execute
      run := Exec.runAll execute
      invoke := Exec.invokeWith host self
      text := Exec.textWith n self }

/-- Blocks for which there is fuel are run in one way, and other statements in the other. -/
theorem Exec.executeHeeding_cases (self : Interp) (limit : Nat) (st : Stmt) :
    (∃ n body line, limit = n + 1 ∧ st = .block body line ∧
      executeHeeding self limit st = runHeeding self body) ∨
    (limit = 0 ∨ ∀ body line, st ≠ .block body line) ∧
      executeHeeding self limit st = executeWith limit self st := by
  unfold executeHeeding
  split
  · next n body line => exact .inl ⟨n, body, line, rfl, rfl, rfl⟩
  · next other =>
    refine .inr ⟨?_, rfl⟩
    cases limit with
    | zero => exact .inl rfl
    | succ n => exact .inr fun body line same => other n body line rfl same

/-- In each state, a block is run as it is, or with a body that gives up. -/
theorem Exec.runHeeding_apply (self : Interp) (body : List Stmt) (s : State) :
    ∃ x, (x = throw .emptyStack ∧ s.overrides body = true ∨
        x = self.run body ∧ s.overrides body = false) ∧
      runHeeding self body s = inBlock (prepareAll body >>= fun _ => x) s := by
  unfold runHeeding
  cases s.overrides body with
  | true => exact ⟨_, .inl ⟨rfl, rfl⟩, rfl⟩
  | false => exact ⟨_, .inr ⟨rfl, rfl⟩, rfl⟩

/-- The scope of a block is gone when the block ends, whether it gives up or not, and the others are
as they were. -/
theorem Exec.runHeeding_finished {p q : Interp} {body : List Stmt}
    (h : FramedAlways .emptyStack (fun _ => False) (fun _ => True) (p.run body) (q.run body))
    (s : State) :
    (runHeeding p body).Ends s
        (fun _ t => True ∧ s.Steady (fun _ => False) t ∧ t.locals = s.locals)
        (fun _ t => s.Steady (fun _ => False) t ∧ t.locals = s.locals) ∧
      (failure? (runHeeding p body s) = some .emptyStack ∨
        runHeeding p body s = inBlock (prepareAll body >>= fun _ => q.run body) s) := by
  obtain ⟨x, hx, same⟩ := runHeeding_apply p body s
  have framed : Framed .emptyStack (fun _ => False) State.Opened (fun _ => True)
      (prepareAll body >>= fun _ => x) (prepareAll body >>= fun _ => q.run body) := by
    refine (framing Failure.passedOn_emptyStack fun _ => False).prepared (l := .none)
      ((Fragment.making_full _).declaresAll body) ?_
    rcases hx with ⟨rfl, -⟩ | ⟨rfl, -⟩
    · exact .given _
    · exact h
  unfold Ends
  rw [same]
  exact framed.inBlock_finished s.opened_block

/-- The interpreter does what that of the language does, unless it gives up. -/
theorem agree_heeding {host : Host} (hh : Host.Steady (fun _ => False) host) (fuel : Nat) :
    (framing Failure.passedOn_emptyStack fun _ => False).AgreeOn .any (Interp.heeding host fuel)
        (Interp.withFuel host fuel) ∧
      ∀ frames c line, FramedAlways .emptyStack (fun _ => False) (fun _ => True)
        ((Interp.heeding host fuel).text frames c line)
        ((Interp.withFuel host fuel).text frames c line) := by
  have full := Fragment.making_full fun _ => ¬ False
  induction fuel with
  | zero =>
    have out (frames : Nat) (c : Cell) (line : Option Nat) :
        FramedAlways .emptyStack (fun _ => False) (fun _ => True)
          ((Interp.heeding host 0).text frames c line)
          ((Interp.withFuel host 0).text frames c line) := .throw .outOfFuel
    exact ⟨{
      evaluate := fun _ => .throw .outOfFuel
      execute := fun _ => .throw .outOfFuel
      run := fun _ => .runAll (fun _ => .throw .outOfFuel) _
      invoke := fun _ _ _ _ => .throw .outOfFuel
      fullText := fun c line _ => framed_fullText out c line }, out⟩
  | succ k ih =>
    obtain ⟨on, texts⟩ := ih
    have execute (st : Stmt) : FramedAlways .emptyStack (fun _ => False) (fun _ => True)
        (Exec.executeHeeding (Interp.heeding host k) k st)
        (Exec.executeWith k (Interp.withFuel host k) st) := by
      rcases Exec.executeHeeding_cases (Interp.heeding host k) k st with
        ⟨n, body, line, -, rfl, same⟩ | ⟨-, same⟩
      · rw [same]
        have all : Nodes.any.all false body := fun _ _ => trivial
        have blocks := Exec.runHeeding_finished (on.run all)
        exact ⟨fun s _ => (blocks s).1.mono (fun _ _ h => ⟨trivial, h.2.1⟩) fun _ _ h => h.1,
          fun s _ => (blocks s).2⟩
      · rw [same]
        exact on.executeWith k (full.stmtParts false st)
    have text (frames : Nat) (c : Cell) (line : Option Nat) :
        FramedAlways .emptyStack (fun _ => False) (fun _ => True)
          ((Interp.heeding host (k + 1)).text frames c line)
          ((Interp.withFuel host (k + 1)).text frames c line) :=
      on.textWith trivial trivial texts k frames c line
    exact ⟨{
      evaluate := fun _ => on.evaluateWith (full.exprParts fun _ _ _ h => h)
      execute := fun _ => execute _
      run := fun _ => .runAll execute _
      invoke := fun owner args line _ => framed_invokeWith hh on _ owner args line
      fullText := fun c line _ => framed_fullText text c line }, text⟩

/-! ## Readings that agree -/

namespace State

variable {s t : State}

/-- A new block sees what is around it. -/
theorem ReadsGlobals.pushBlock (h : s.ReadsGlobals) : (s.pushBlockScope .empty).ReadsGlobals :=
  .of_hidden fun name hn => h.hidden name hn

/-- The readings agree unless the innermost scope binds a name that is declared as global around
it. -/
theorem readsGlobals_iff {top : Frame} {below : List Frame} (hl : s.locals = top :: below) :
    s.ReadsGlobals ↔ ∀ name, top.scope.globalNames.contains name = false →
      Scope.declaredGlobal name s.chain.tail = true →
      top.scope.has name = false ∧ Scope.findIn name s.chain.tail = none := by
  have chain : s.chain = top.scope :: s.chain.tail := by
    rw [State.chain, hl, chainOf, List.tail_cons]
  have declared (name : String) : s.isDeclaredGlobal name =
      (top.scope.globalNames.contains name || Scope.declaredGlobal name s.chain.tail) := by
    rw [isDeclaredGlobal, chain]
    rfl
  have search (name : String) (h : top.scope.globalNames.contains name = false) :
      s.findLocal? name = none ↔
        top.scope.has name = false ∧ Scope.findIn name s.chain.tail = none := by
    rw [findLocal?, chain, List.tail_cons, Scope.findIn, h, Scope.has, Bindings.contains]
    cases top.scope.items.find? name <;> simp
  constructor
  · intro h name here around
    exact (search name here).1 (h.hidden name (by rw [declared, around, Bool.or_true]))
  · intro h
    refine .of_hidden fun name hn => ?_
    rw [declared] at hn
    cases here : top.scope.globalNames.contains name with
    | true => rw [findLocal?, chain, Scope.findIn, if_pos here]
    | false =>
      rw [here, Bool.false_or] at hn
      exact (search name here).2 (h name here hn)

/-- A change of the innermost scope that binds no name that is declared as global, unless the scope
itself declares it. -/
theorem ReadsGlobals.mapTop (h : s.ReadsGlobals) {f : Scope → Scope}
    (hf : ∀ a name, (f a).globalNames.contains name = false →
      a.globalNames.contains name = false ∧
        (s.isDeclaredGlobal name = true → (f a).has name = a.has name)) :
    (s.mapTop f).ReadsGlobals := by
  cases hl : s.locals with
  | nil => exact h.congr (by simp [State.mapTop, hl])
  | cons top below =>
    have changed : (s.mapTop f).locals = { top with scope := f top.scope } :: below := by
      simp [State.mapTop, hl]
    have outer : (s.mapTop f).chain.tail = s.chain.tail := by
      simp [State.chain, changed, hl, chainOf]
    refine (readsGlobals_iff changed).2 fun name here around => ?_
    obtain ⟨before, same⟩ := hf top.scope name here
    rw [outer] at around ⊢
    have declared : s.isDeclaredGlobal name = true := by
      have chain : s.chain = top.scope :: s.chain.tail := by
        rw [State.chain, hl, chainOf, List.tail_cons]
      rw [isDeclaredGlobal, chain, Scope.declaredGlobal, List.any_cons, Bool.or_eq_true]
      exact .inr around
    rw [same declared]
    exact (readsGlobals_iff hl).1 h name before around

/-- A name that is not declared as global can be bound in the innermost scope. -/
theorem ReadsGlobals.addLocal (h : s.ReadsGlobals) {name : String}
    (undeclared : s.isDeclaredGlobal name = false) (c : Cell) :
    (s.mapTop (·.add name c)).ReadsGlobals :=
  h.mapTop fun a other here => ⟨here, fun declared => by
    have ne : name ≠ other := fun same => by simp [same, declared] at undeclared
    rw [Scope.has_add, beq_false_of_ne ne, Bool.false_or]⟩

/-- A name can be declared as global. -/
theorem ReadsGlobals.declareGlobal (h : s.ReadsGlobals) (name : String) :
    (s.declareGlobal name).ReadsGlobals := by
  refine h.mapTop fun a other here => ⟨?_, fun _ => ?_⟩
  · unfold Scope.declareGlobal at here
    split at here
    · exact here
    · rw [List.contains_cons, Bool.or_eq_false_iff] at here
      exact here.2
  · unfold Scope.declareGlobal
    split <;> rfl

end State

/-- The scopes stay steady, and where the readings of declarations agree, they go on to agree. -/
def ObjectOrder.heeding : ObjectOrder where
  Le s t := s.Steady (fun _ => False) t ∧ (s.ReadsGlobals → t.ReadsGlobals)
  From _ := True
  refl s := ⟨.refl s, id⟩
  trans h h' := ⟨h.1.trans h'.1, h'.2 ∘ h.2⟩
  keeps _ _ := trivial
  quiet h := ⟨.of_eq h.locals h.globals h.instants, fun hs => hs.congr h.locals⟩
  Made _ := True
  allocObject _ _ := ⟨.of_eq rfl rfl rfl, fun hs => hs.congr rfl⟩
  made _ := trivial
  setMember _ _ := ⟨.of_eq rfl rfl rfl, fun hs => hs.congr rfl⟩

/-- Where the readings of declarations agree, they go on to agree. -/
def PropertyOrder.heeding : PropertyOrder where
  toQuietOrder := ObjectOrder.heeding.toQuietOrder
  Holds := State.ReadsGlobals
  follows _ := trivial
  kept hs h := h.2 hs

namespace Exec

variable {α : Type} {Q : α → Prop}

/-- The scopes stay steady, and the readings of declarations go on to agree. -/
abbrev Heeds (Q : α → Prop) (x : Exec α) : Prop := Along ObjectOrder.heeding Q x

namespace Heeds

/-- A framed step after which the readings agree. -/
theorem of_framed {x y : Exec α} (framed : FramedAlways .emptyStack (fun _ => False) Q x y)
    (reads : ∀ s, s.ReadsGlobals →
      x.Ends s (fun _ t => t.ReadsGlobals) fun _ t => t.ReadsGlobals) : Heeds Q x := by
  intro s _
  have steady := framed.steady s trivial
  unfold Ends at steady ⊢
  have reads (hs : s.ReadsGlobals) := reads s hs
  unfold Ends at reads
  cases hx : x s with
  | ok a t =>
    rw [hx] at steady reads
    exact ⟨steady.1, steady.2, reads⟩
  | error f t =>
    rw [hx] at steady reads
    exact ⟨steady, reads⟩

/-- A step in scopes of its own, which are gone when it ends. -/
theorem of_finished {x : Exec α} (h : ∀ s,
    x.Ends s (fun a t => Q a ∧ s.Steady (fun _ => False) t ∧ t.locals = s.locals)
      fun _ t => s.Steady (fun _ => False) t ∧ t.locals = s.locals) : Heeds Q x := fun s _ =>
  (h s).mono (fun _ _ h => ⟨h.1, h.2.1, fun hs => hs.congr h.2.2⟩)
    fun _ _ h => ⟨h.1, fun hs => hs.congr h.2⟩

theorem framed {x : Exec α} (h : Heeds Q x) : FramedAlways .emptyStack (fun _ => False) Q x x :=
  .self fun s _ => (h s trivial).mono (fun _ _ h => ⟨h.1, h.2.1⟩) fun _ _ h => h.1

theorem addAnonymous (c : Cell) : Heeds (fun _ => True) (addAnonymous c) := by
  refine of_framed (.addAnonymous c) fun s hs => .addAnonymous (fun _ => ?_) (fun _ _ _ => ?_) ?_
  · exact hs.mapTop fun _ _ h => ⟨h, fun _ => rfl⟩
  · exact hs.congr rfl
  · exact fun _ => hs

/-- A name is made where its declaration says. -/
theorem evaluateName (name : String) (use : Use) (line : Nat) :
    Heeds (fun _ => True) (evaluateName name use line) := by
  refine of_framed ((framing Failure.passedOn_emptyStack fun _ => False).evaluateName name use line
    fun _ => id) fun s hs => ?_
  refine .evaluateName (fun _ _ => hs) (fun _ => hs) fun _ _ => ?_
  let u : State := { s with store := (s.store.alloc .undefined).2 }
  have hu : u.ReadsGlobals := hs.congr rfl
  refine .newName (.addName (fun _ undeclared => ?_) fun _ => ?_)
  · exact .addLocal (fun _ => hu.addLocal undeclared _) fun _ => hu
  · exact (addGlobal_locals name _ _ u).mono (fun _ _ hl => hu.congr hl)
      fun _ _ hl => hu.congr hl

theorem declareGlobal (name : String) : Heeds (fun _ => True) (modify (·.declareGlobal name)) :=
  fun _ _ => ⟨trivial, State.steady_mapTop fun top _ _ => top.scope.extends_declareGlobal name,
    fun hs => hs.declareGlobal name⟩

/-- The scope of a block that nothing is declared in is gone when it ends. -/
theorem inBlock {x : Exec Unit}
    (h : Framed .emptyStack (fun _ => False) State.Opened (fun _ => True) x x) :
    Heeds (fun _ => True) (inBlock x) :=
  .of_finished fun s => (h.inBlock_finished s.opened_block).1

theorem activate {x : Exec Cell}
    (h : Framed .emptyStack (fun _ => False) State.Opened (fun _ => True) x x) {scope : Scope}
    {members : Option Scope} (hs : scope.globalNames = []) (hm : ∀ m ∈ members, m.globalNames = [])
    (line : Option Nat) : Heeds (fun _ => True) (activate scope members line x) :=
  .of_finished fun s => (h.activate_finished rfl (s.opened_entered hs hm)).1

theorem inCall {x : Exec Cell}
    (h : Framed .emptyStack (fun _ => False) State.Opened (fun _ => True) x x)
    (parameters : List String) (owner : Option ObjectRef) (args : List Cell) (line : Option Nat) :
    Heeds (fun _ => True) (inCall parameters owner args line x) := by
  rw [inCall_eq_activate]
  exact (Along.ownerScope owner).bind fun _ hm => (Along.argumentScope parameters args line).bind
    fun _ hs => activate h hs hm line

theorem fillObject {x : Exec Unit}
    (h : Framed .emptyStack (fun _ => False) State.Opened (fun _ => True) x x) (obj : Cell)
    (r : ObjectRef) : Heeds (fun _ => True) (fillObject obj r x) := by
  have promotes : ObjectOrder.heeding.Promotes := fun _ _ _ _ _ =>
    ⟨.of_eq rfl rfl rfl, fun hs => hs.congr rfl⟩
  have made : ObjectOrder.heeding.Made r := trivial
  have realized {members : Scope} (hm : members.globalNames = []) :
      Heeds (fun _ => True) (Exec.inRealization obj members x) :=
    .of_finished fun s => (h.inRealization_finished (s.opened_realizing obj hm)).1
  exact (Along.memberScope r).bind fun members hm => (realized hm).after fun bound =>
    (Along.promote promotes made bound.entries).after fun _ => Along.bindParent made

end Heeds

end Exec

/-! ## Steps that do the same where declarations are heeded -/

/-- The current call declares no names as global. -/
def State.Undeclared (s : State) : Prop := ∀ name, s.isDeclaredGlobal name = false

namespace State

variable {s : State}

theorem Undeclared.congr {t : State} (h : s.Undeclared) (hl : t.locals = s.locals) :
    t.Undeclared := fun name => by
  rw [isDeclaredGlobal, chain, hl]
  exact h name

/-- A call sees no declaration of its caller's. -/
theorem undeclared_entered (s : State) {scope : Scope} {members : Option Scope}
    (hs : scope.globalNames = []) (hm : ∀ m ∈ members, m.globalNames = []) :
    (s.entered scope members).Undeclared := fun name => by
  cases members with
  | none =>
    simp [entered, pushCall, pushFunctionScope, isDeclaredGlobal, chain, chainOf,
      Scope.declaredGlobal, hs]
  | some m =>
    simp [entered, pushCall, pushFunctionScope, pushBlockScope, isDeclaredGlobal, chain, chainOf,
      Scope.declaredGlobal, hs, hm m rfl]

theorem undeclared_realizing (s : State) (obj : Cell) {members : Scope}
    (h : members.globalNames = []) : (s.realizing obj members).Undeclared := fun name => by
  simp [realizing, pushFunctionScope, isDeclaredGlobal, chain, chainOf, Scope.declaredGlobal, h]

end State

namespace Exec

/-- The second step keeps to the order, and the first one does the same, begun where the readings of
declarations agree. -/
abbrev Heeded (Q : α → Prop) (x y : Exec α) : Prop := Alongside .heeding Q x y

/-- The same of steps that are begun in a scope that has just been opened, for a call or a
realization. -/
structure HeededInward (x y : Exec α) : Prop where
  framed : Framed .emptyStack (fun _ => False) State.Opened (fun _ => True) y y
  same {s : State} : s.Opened → s.Undeclared → x s = y s

namespace Heeded

variable {x y : Exec α}

/-- The scope of a loop, in which nothing is declared. -/
theorem inScope {x y : Exec Unit} (h : Heeded (fun _ => True) x y) :
    Heeded (fun _ => True) (inBlock x) (inBlock y) where
  along := Heeds.inBlock ((Heeds.framed h.along).mono (fun _ _ => trivial) fun _ h => h)
  same hs := inBlock_congr (h.same hs.pushBlock)

theorem inward (h : Heeded (fun _ => True) x y) : HeededInward x y where
  framed := (Heeds.framed h.along).mono (fun _ _ => trivial) fun _ h => h
  same _ hs := h.same (.of_undeclared hs)

theorem prepared {x y : Exec Unit} (body : List Stmt) (h : Heeded (fun _ => True) x y) :
    HeededInward (prepareAll body >>= fun _ => x) (prepareAll body >>= fun _ => y) where
  framed := (framing Failure.passedOn_emptyStack fun _ => False).prepared (l := .none)
    ((Fragment.making_full _).declaresAll body) (Heeds.framed h.along)
  same ho hs := Ends.bind_congr ((prepareAll_hoists body ho).mono (fun _ _ hoisted =>
    h.same (.of_undeclared fun name => (hoisted.isDeclaredGlobal name).trans (hs name)))
      fun _ _ h => h)

end Heeded

namespace HeededInward

theorem takeResult {x y : Exec Unit} (h : HeededInward x y) :
    HeededInward (takeResult x) (takeResult y) where
  framed := h.framed.takeResult
  same {s} ho hs := by
    let c := s.store.alloc .undefined
    let u : State := { s with store := c.2, returns := c.1 :: s.returns }
    exact bind_congr_left (h.same (s := u) (ho.congr rfl) (hs.congr rfl)) _

theorem inCall {x y : Exec Cell} (h : HeededInward x y) (parameters : List String)
    (owner : Option ObjectRef) (args : List Cell) (line : Option Nat) :
    Heeded (fun _ => True) (inCall parameters owner args line x)
      (inCall parameters owner args line y) where
  along := Heeds.inCall h.framed parameters owner args line
  same _ := by
    rw [inCall_eq_activate, inCall_eq_activate]
    refine Ends.bind_congr ((Along.ownerScope (R := .least) owner _ trivial).mono ?_ fun _ _ h => h)
    rintro members t ⟨plain, -⟩
    refine Ends.bind_congr ((Along.argumentScope (R := .least) parameters args line t trivial).mono
      ?_ fun _ _ h => h)
    rintro scope u ⟨bare, -⟩
    exact activate_congr (h.same (u.opened_entered bare plain) (u.undeclared_entered bare plain))

theorem fillObject {x y : Exec Unit} (h : HeededInward x y) (obj : Cell) (r : ObjectRef) :
    Heeded (fun _ => True) (fillObject obj r x) (fillObject obj r y) where
  along := Heeds.fillObject h.framed obj r
  same {s} _ := by
    have scope := Along.memberScope (R := .least) r s trivial
    refine Ends.bind_congr (scope.mono (fun members t ht => ?_) fun _ _ h => h)
    have inner := h.same (t.opened_realizing obj ht.1) (t.undeclared_realizing obj ht.1)
    exact bind_congr_left (inRealization_congr inner) _

end HeededInward

end Exec

/-! ## The logic -/

open Exec (Heeds Heeded HeededInward)

/-- Doing the same where declarations are heeded is a logic of all programs but blocks. -/
def heeded : ObjectLogic (.declaring True) where
  toCellLogic := PropertyOrder.heeding.cells Heeds.addAnonymous
  Fresh _ _ x y := HeededInward x y
  Made _ := True
  jumps _ h := h
  evaluateName name use line _ := .self (Heeds.evaluateName name use line)
  fresh := Heeded.inward
  prepared {_ body _ _} _ h := Heeded.prepared body h
  takeResult := .takeResult
  inScope := Heeded.inScope
  makeObject t _ := .self (Along.makeObject (R := .heeding) t)
  evaluateMember owner name use line :=
    .self (Along.evaluateMember (R := .heeding) owner name use line)
  fillObject obj r _ h := h.fillObject obj r
  declareGlobal name _ := .self (Heeds.declareGlobal name)
  loopBefore limit _ := Alongside.loopParts.loopBefore limit
  loopAfter limit _ := Alongside.loopParts.loopAfter limit

end CellScript
