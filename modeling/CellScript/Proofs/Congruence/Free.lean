import CellScript.Proofs.Congruence.Program
import CellScript.Proofs.Outcome

/-!
# Logics with a free storage

Many properties of programs have nothing to do with what the storage holds: how calls nest, which
names are bound, what happens to the flags. A relation that does not look at the storage is kept by
all changes of it, and then by all steps that are made of such changes. The programs of the storage
are the only thing that may matter, as they can be run.

* `StoreLogic`: the clauses for a relation that is kept by every change of the storage, as long as
  the values in it stay in the fragment, and `StoreLogic.cells`, `StoreLogic.steps`: it is a cell
  logic, and a step logic if declarations of global names keep it as well;
* `Fragment.Full`: a fragment with all functions, loops and jumps. Every program is in it.
-/

namespace CellScript

/-- The values in a storage are in the fragment. -/
def Store.Within (F : Fragment) (s : Store) : Prop := ∀ v ∈ s.cells, F.value v

/-- A relation between steps that is kept by all changes of the storage. Whether names may be
declared as global is left open. -/
structure StoreLogic (F : Fragment) where
  Rel : Flags → {α : Type} → (α → Prop) → Exec α → Exec α → Prop
  -- Sequences and failures.
  pure {l : Flags} {α : Type} {Q : α → Prop} {a : α} : Q a → Rel l Q (pure a) (pure a)
  bind {l : Flags} {α β : Type} {P : α → Prop} {Q : β → Prop} {x y : Exec α} {f g : α → Exec β} :
    Rel l P x y → (∀ a, P a → Rel l Q (f a) (g a)) → Rel l Q (x >>= f) (y >>= g)
  mono {l m : Flags} {α : Type} {P Q : α → Prop} {x y : Exec α} :
    l.Below m → (∀ a, P a → Q a) → Rel l P x y → Rel m Q x y
  throw {l : Flags} {α : Type} {Q : α → Prop} (f : Failure) :
    F.failure f → Rel l Q (throw f : Exec α) (throw f)
  located {l : Flags} {α : Type} {Q : α → Prop} {x y : Exec α} (line : Option Nat) :
    Rel l Q x y → Rel l Q (Exec.mapFailure (Failure.located line) x)
      (Exec.mapFailure (Failure.located line) y)
  -- The storage.
  storage : Rel .none (fun _ => True) Exec.storage Exec.storage
  value (c : Cell) : Rel .none F.value (Exec.value c) (Exec.value c)
  allocate {α : Type} {Q : α → Prop} (f : Store → α × Store) :
    (∀ s, s.Within F → Q (f s).1 ∧ (f s).2.Within F) →
    Rel .none Q (Exec.allocate f) (Exec.allocate f)
  -- The rest of the state.
  find? (name : String) : Rel .none (fun _ => True) (Exec.find? name) (Exec.find? name)
  findType? (name : String) :
    Rel .none (fun t => ∀ u ∈ t, F.type u) (Exec.findType? name) (Exec.findType? name)
  instant? : Rel .none (fun _ => True) (do return (← get).instants.head?)
    (do return (← get).instants.head?)
  addAnonymous (c : Cell) :
    Rel .none (fun _ => True) (Exec.addAnonymous c) (Exec.addAnonymous c)
  print (t : String) : Rel .none (fun _ => True) (Exec.print t) (Exec.print t)
  log (level : LogLevel) (logger t : String) :
    Rel .none (fun _ => True) (Exec.log level logger t) (Exec.log level logger t)
  randomBetween (a b : Int) :
    Rel .none (fun _ => True) (Exec.randomBetween a b) (Exec.randomBetween a b)
  raise (f : Flags) : Rel f (fun _ => True) (Exec.raise f) (Exec.raise f)
  setReturn (c : Cell) (line : Option Nat) :
    Rel .ofReturn (fun _ => True) (Exec.setReturn c line) (Exec.setReturn c line)

namespace StoreLogic

variable {F : Fragment} (L : StoreLogic F) {α β : Type} {l : Flags}

/-! ## Cells -/

/-- Two steps are related and raise no flag. -/
abbrev Holds (x y : Exec α) : Prop := L.Rel .none (fun _ => True) x y

theorem fail {Q : α → Prop} (cause : Cause) (line : Option Nat) :
    L.Rel l Q (Exec.fail cause line) (Exec.fail cause line) :=
  L.throw _ (F.script cause line)

theorem ofNumber (x : Except NumberFault α) : L.Holds (Exec.ofNumber x) (Exec.ofNumber x) := by
  cases x with
  | ok a => exact L.pure trivial
  | error f => exact L.throw _ (F.number f)

/-- A change of the storage beside the cells. -/
theorem allocate_beside (f : Store → α × Store) (h : ∀ s, (f s).2.cells = s.cells) :
    L.Holds (Exec.allocate f) (Exec.allocate f) :=
  L.allocate f fun s hs => ⟨trivial, by unfold Store.Within; rw [h s]; exact hs⟩

theorem updateStore (f : Store → Store) (h : ∀ s, (f s).cells = s.cells) :
    L.Holds (Exec.updateStore f) (Exec.updateStore f) :=
  L.allocate_beside (fun s => ((), f s)) h

theorem newCell {v : Value} (hv : F.value v) : L.Holds (Exec.newCell v) (Exec.newCell v) := by
  refine L.allocate _ fun s hs => ⟨trivial, fun w hw => ?_⟩
  rcases Array.mem_push.1 hw with hw | rfl
  · exact hs w hw
  · exact hv

theorem numberOf (v : Value) (line : Option Nat) :
    L.Holds (Exec.numberOf v line) (Exec.numberOf v line) := by
  unfold Exec.numberOf
  split
  · exact L.bind (L.ofNumber _) fun _ _ => L.pure trivial
  · exact L.pure trivial
  · exact L.bind L.storage fun _ _ => L.ofNumber _
  · exact L.fail _ _

theorem detached {v : Value} (hv : F.value v) :
    L.Rel .none F.value (Exec.detached v) (Exec.detached v) := by
  unfold Exec.detached
  split
  · exact L.bind L.storage fun _ _ => L.bind (L.ofNumber _) fun _ _ => L.pure (F.data rfl)
  · exact L.bind (L.allocate_beside _ fun _ => rfl) fun _ _ => L.pure (F.data rfl)
  · exact L.bind (L.allocate_beside _ fun _ => rfl) fun _ _ => L.pure (F.data rfl)
  · exact L.bind (L.allocate_beside _ fun _ => rfl) fun _ _ => L.pure (F.data rfl)
  · exact L.pure hv

theorem copyCell (c : Cell) : L.Holds (Exec.copyCell c) (Exec.copyCell c) :=
  L.bind (L.value c) fun _ hv => L.bind (L.detached hv) fun _ hv => L.newCell hv

theorem store (c : Cell) {v : Value} (line : Option Nat) (hv : F.value v) :
    L.Holds (Exec.store c v line) (Exec.store c v line) := by
  refine L.bind (L.value c) fun w _ => ?_
  split
  · next k _ =>
    exact L.bind (L.numberOf v line) fun x _ => L.updateStore _ fun s => by cases k <;> rfl
  · refine L.bind (L.detached hv) fun u hu => ?_
    refine L.allocate (fun s => ((), s.set c u)) fun s hs => ⟨trivial, fun w hw => ?_⟩
    rcases Array.mem_or_eq_of_mem_setIfInBounds hw with hw | rfl
    · exact hs w hw
    · exact hu

theorem append (r : ListRef) (c : Cell) : L.Holds (Exec.append r c) (Exec.append r c) :=
  L.bind (L.copyCell c) fun _ _ => L.updateStore _ fun _ => rfl

theorem evaluateList {f g : Expr → Exec Cell} (es : List Expr)
    (h : ∀ e, L.Holds (f e) (g e)) :
    L.Holds (Exec.evaluateList f es) (Exec.evaluateList g es) := by
  have elements : L.Holds (Exec.evaluateElements f es) (Exec.evaluateElements g es) := by
    induction es with
    | nil => exact L.pure trivial
    | cons e es ih =>
      exact L.bind (h e) fun _ _ => L.bind (L.copyCell _) fun _ _ =>
        L.bind ih fun _ _ => L.pure trivial
  exact L.bind elements fun _ _ => L.bind (L.allocate_beside _ fun _ => rfl) fun _ _ =>
    L.newCell (F.data rfl)

/-! ## Objects -/

theorem bindMethod (r : ObjectRef) (name : String) {f : Callable} (hf : F.callable f) :
    L.Holds (Exec.bindMethod r name f) (Exec.bindMethod r name f) :=
  L.bind (L.newCell ((F.value_function f _).2 hf)) fun _ _ => L.updateStore _ fun _ => rfl

theorem bindMethods (r : ObjectRef) {ms : List (String × Callable)}
    (h : ∀ m ∈ ms, F.callable m.2) :
    L.Holds (Exec.bindMethods r ms) (Exec.bindMethods r ms) := by
  induction ms with
  | nil => exact L.pure trivial
  | cons m ms ih =>
    exact L.bind (L.bindMethod r m.1 (h m List.mem_cons_self)) fun _ _ =>
      ih fun m hm => h m (List.mem_cons_of_mem _ hm)

theorem makeObject {t : ObjectType} (ht : F.type t) :
    L.Holds (Exec.makeObject t) (Exec.makeObject t) :=
  L.bind (L.allocate_beside _ fun _ => rfl) fun r _ =>
    L.bind (L.bindMethods r ((F.type_iff t).1 ht)) fun _ _ => L.pure trivial

theorem newMember (owner : Cell) (name : String) (line : Option Nat) :
    L.Holds (Exec.newMember owner name line) (Exec.newMember owner name line) := by
  refine L.bind (L.newCell (F.data rfl)) fun c _ =>
    L.bind (P := fun _ => True) (L.bind (L.value owner) fun v _ => ?_) fun _ _ => L.pure trivial
  split
  · exact L.updateStore _ fun _ => rfl
  · exact L.fail _ _

theorem globalNames_addAll (entries : List (String × Cell)) (scope : Scope) :
    (entries.foldl (fun s (name, c) => s.add name c) scope).globalNames = scope.globalNames := by
  induction entries generalizing scope with
  | nil => rfl
  | cons entry rest ih => exact ih _

/-- A new scope declares no names as global. -/
theorem memberScope (r : ObjectRef) : L.Rel .none (fun scope => scope.globalNames = [])
    (Exec.memberScope r) (Exec.memberScope r) :=
  L.bind (L.newCell (F.data rfl)) fun _ _ => L.bind L.storage fun _ _ =>
    L.pure (globalNames_addAll _ _)

theorem promote (r : ObjectRef) (entries : List (String × Cell)) :
    L.Holds (Exec.promote r entries) (Exec.promote r entries) := by
  induction entries with
  | nil => exact L.pure trivial
  | cons entry rest ih =>
    obtain ⟨name, c⟩ := entry
    refine L.bind L.storage fun store _ => ?_
    dsimp only
    split
    · refine L.bind (L.value c) fun v hv => ?_
      split
      · exact L.bind (L.bindMethod r name ((F.value_function _ _).1 hv)) fun _ _ => ih
      · exact L.bind (L.updateStore _ fun _ => rfl) fun _ _ => ih
    · exact ih

theorem copyInstant_eq : Exec.copyInstant = (do return (← get).instants.head?) >>= fun obj? =>
    match obj? with
    | some obj => Exec.copyCell obj
    | none => Exec.newCell .undefined := by
  funext s
  obtain ⟨_, _, _, _, _, instants⟩ := s
  cases instants <;> rfl

theorem bindParent (r : ObjectRef) : L.Holds (Exec.bindParent r) (Exec.bindParent r) := by
  refine L.bind (P := fun _ => True) ?_ fun _ _ => L.updateStore _ fun _ => rfl
  rw [copyInstant_eq]
  refine L.bind L.instant? fun obj _ => ?_
  split
  · exact L.copyCell _
  · exact L.newCell (F.data rfl)

/-- What a realization does around the run of its statements. -/
theorem fillObject {x y : Exec Unit} (obj : Cell) (r : ObjectRef)
    (h : ∀ members, members.globalNames = [] → L.Rel l (fun _ => True)
      (Exec.inRealization obj members x) (Exec.inRealization obj members y)) :
    L.Rel l (fun _ => True) (Exec.fillObject obj r x) (Exec.fillObject obj r y) := by
  have weaken {β : Type} {Q : β → Prop} {u v : Exec β} (hu : L.Rel .none Q u v) : L.Rel l Q u v :=
    L.mono l.none_below (fun _ h => h) hu
  exact L.bind (weaken (L.memberScope r)) fun members hm => L.bind (h members hm) fun _ _ =>
    L.bind (weaken (L.promote r _)) fun _ _ => weaken (L.bindParent r)

/-! ## Calls -/

theorem ownerScope (owner : Option ObjectRef) :
    L.Rel .none (fun scope => ∀ m ∈ scope, m.globalNames = []) (Exec.ownerScope owner)
      (Exec.ownerScope owner) := by
  cases owner with
  | none => exact L.pure (by simp)
  | some r =>
    refine L.bind (L.memberScope r) fun scope hs => L.pure ?_
    rintro m ⟨rfl⟩
    exact hs

theorem argumentScope (parameters : List String) (args : List Cell) (line : Option Nat) :
    L.Rel .none (fun scope => scope.globalNames = []) (Exec.argumentScope parameters args line)
      (Exec.argumentScope parameters args line) := by
  have bound (scope : Scope) (ps : List String) (as : List Cell) (h : scope.globalNames = []) :
      L.Rel .none (fun scope => scope.globalNames = []) (Exec.bindArguments scope ps as)
        (Exec.bindArguments scope ps as) := by
    fun_induction Exec.bindArguments scope ps as with
    | case1 scope as => exact L.pure h
    | case2 scope p ps ih => exact L.bind (L.newCell (F.data rfl)) fun c _ => ih c h
    | case3 scope p ps a as ih => exact ih h
  unfold Exec.argumentScope
  split
  · exact L.fail _ _
  · exact bound _ _ _ rfl

/-- What a call does before its scopes are made. -/
theorem inCall {x y : Exec Cell} (parameters : List String) (owner : Option ObjectRef)
    (args : List Cell) (line : Option Nat)
    (h : ∀ scope members, scope.globalNames = [] → (∀ m ∈ members, m.globalNames = []) →
      L.Holds (Exec.activate scope members line x) (Exec.activate scope members line y)) :
    L.Holds (Exec.inCall parameters owner args line x)
      (Exec.inCall parameters owner args line y) :=
  L.bind (L.ownerScope owner) fun members hm =>
    L.bind (L.argumentScope parameters args line) fun scope hs => h scope members hs hm

/-! ## The step logic -/

/-- A relation that all changes of the storage keep is a cell logic. -/
def cells : CellLogic F where
  Rel := L.Rel
  pure := L.pure
  bind := L.bind
  mono := L.mono
  throw := L.throw
  located := L.located
  storage := L.storage
  value := L.value
  find? := L.find?
  findType? := L.findType?
  newCell _ := L.newCell
  allocate f h := L.allocate_beside f fun s => (h s).cells
  store c _ := L.store c
  copyCell := L.copyCell
  append := L.append
  evaluateList := L.evaluateList
  addAnonymous := L.addAnonymous
  print := L.print
  log := L.log
  randomBetween := L.randomBetween
  raise := L.raise
  setReturn := L.setReturn

/-- It is a step logic where names may be declared as global. -/
def steps (declareGlobal : ∀ name, L.Holds (modify (·.declareGlobal name))
    (modify (·.declareGlobal name))) : StepLogic F where
  toCellLogic := L.cells
  makeObject _ := L.makeObject
  newMember := L.newMember
  declareGlobal := declareGlobal

end StoreLogic

/-! ## The whole language -/

/-- Every program is in the fragment, unless it makes names that it may not make. -/
structure Fragment.Full (F : Fragment) : Prop where
  callable (f : Callable) : F.callable f
  texts : F.texts
  loops : F.loops
  jumps : F.jumps
  globals : F.globals

/-- The whole language, with functions of a host and with jumps anywhere, where programs may make
some names. -/
def Fragment.making (creates : String → Prop) : Fragment where
  callable _ := True
  type _ := True
  value _ := True
  failure _ := True
  creates := creates
  texts := True
  loops := True
  jumps := True
  type_iff _ := by simp
  data _ := trivial
  value_function _ _ := Iff.rfl
  value_string _ := Iff.rfl
  colorMethod _ _ := trivial
  vectorMethod _ _ := trivial
  listMethod _ _ := trivial
  builtin _ := trivial
  script _ _ := trivial
  number _ := trivial

theorem Fragment.making_full (creates : String → Prop) : (Fragment.making creates).Full :=
  ⟨fun _ => trivial, trivial, trivial, trivial, trivial⟩

/-- All nodes. -/
def Nodes.any : Nodes := ⟨fun _ => True, fun _ _ => True⟩

namespace Fragment.Full

variable {F : Fragment}

mutual

theorem declares (h : F.Full) : ∀ st : Stmt, F.declares st
  | .function f => by
    unfold Fragment.declares
    exact h.callable _
  | .classDef _ _ methods _ _ => by
    unfold Fragment.declares
    exact fun m _ => h.callable _
  | .include _ body _ => by
    unfold Fragment.declares
    exact declaresAll h body
  | .expression _ | .assign _ _ _ | .update _ _ _ _ | .realize _ _ _ | .nop _
  | .block _ _ | .branch _ _ _ _ | .loop _ _ | .whileLoop _ _ _ | .doWhile _ _ _
  | .forLoop _ _ _ _ _ | .break _ | .continue _ | .return _ _ | .global _ _ => by
    unfold Fragment.declares
    trivial

theorem declaresAll (h : F.Full) : ∀ ss : List Stmt, F.declaresAll ss
  | [] => trivial
  | s :: ss => ⟨declares h s, declaresAll h ss⟩

end

theorem exprParts (h : F.Full) {e : Expr}
    (hn : ∀ name line, e = .name name .location line → F.creates name) :
    e.PartsIn F .any := by
  cases e with
  | string _ _ => exact h.texts
  | name name use line =>
    rintro rfl
    exact hn name line rfl
  | _ => simp [Expr.PartsIn, Nodes.any]

theorem stmtParts (h : F.Full) (inLoop : Bool) (st : Stmt) : st.PartsIn F .any inLoop := by
  have all (inLoop : Bool) (ss : List Stmt) : Nodes.any.all inLoop ss := fun _ _ => trivial
  cases st with
  | realize _ body _ | block body _ => exact ⟨h.declaresAll body, all _ body⟩
  | «include» _ body _ => exact all _ body
  | loop _ _ => exact ⟨h.loops, trivial⟩
  | whileLoop _ _ _ | doWhile _ _ _ => exact ⟨h.loops, trivial, trivial⟩
  | forLoop _ _ _ _ _ => exact ⟨h.loops, trivial, trivial, trivial, trivial⟩
  | «break» _ | «continue» _ => exact .inl h.jumps
  | global _ _ => exact h.globals
  | _ => simp [Stmt.PartsIn, Nodes.any]

end Fragment.Full

end CellScript
