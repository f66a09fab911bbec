import CellScript.Proofs.Closed
import CellScript.Proofs.Outcome

/-!
# Lines of programs and of failures

Where a script fails, it is to say at which line. Steps that read arguments of standard functions or
convert a value to a text do not know a line; whoever calls them adds one.

* `Script.lines`: the lines of all nodes of a script;
* `State.Lined L`: all programs in the state have their lines in `L`;
* `Failure.In L open`: a failure of a script has a line in `L`, or none if the place is open;
* `Exec.Located`: a step keeps the first and fails as the second says.
-/

namespace CellScript

/-! ## Lines of nodes -/

mutual

/-- The lines of an expression and of those in it. -/
def Expr.lines : Expr → List Nat
  | .integer _ l => [l]
  | .real _ l => [l]
  | .string _ l => [l]
  | .boolean _ l => [l]
  | .undefined l => [l]
  | .color es l => l :: Expr.linesAll es
  | .vector x y l => l :: (x.lines ++ y.lines)
  | .list es l => l :: Expr.linesAll es
  | .name _ _ l => [l]
  | .member target _ _ l => l :: target.lines
  | .index target position _ l => l :: (target.lines ++ position.lines)
  | .call function arguments l => l :: (function.lines ++ Expr.linesAll arguments)
  | .new _ arguments l => l :: Expr.linesAll arguments
  | .negate e l => l :: e.lines
  | .not e l => l :: e.lines
  | .preIncrement e _ l => l :: e.lines
  | .postIncrement e _ l => l :: e.lines
  | .arithmetic _ lhs rhs l => l :: (lhs.lines ++ rhs.lines)
  | .relational _ lhs rhs l => l :: (lhs.lines ++ rhs.lines)
  | .logical _ lhs rhs l => l :: (lhs.lines ++ rhs.lines)

/-- The lines of expressions and of those in them. -/
def Expr.linesAll : List Expr → List Nat
  | [] => []
  | e :: es => e.lines ++ Expr.linesAll es

end

mutual

/-- The lines of a statement and of what is in it. -/
def Stmt.lines : Stmt → List Nat
  | .expression e => e.lines
  | .assign target value l => l :: (target.lines ++ value.lines)
  | .update _ target value l => l :: (target.lines ++ value.lines)
  | .realize _ body l => l :: Stmt.linesAll body
  | .nop l => [l]
  | .include _ body l => l :: Stmt.linesAll body
  | .block body l => l :: Stmt.linesAll body
  | .branch condition positive negative l =>
    l :: (condition.lines ++ positive.lines ++ Stmt.linesOption negative)
  | .loop body l => l :: body.lines
  | .whileLoop condition body l => l :: (condition.lines ++ body.lines)
  | .doWhile condition body l => l :: (condition.lines ++ body.lines)
  | .forLoop init condition step body l =>
    l :: (init.lines ++ condition.lines ++ step.lines ++ body.lines)
  | .break l => [l]
  | .continue l => [l]
  | .return value l => l :: value.elim [] Expr.lines
  | .global _ l => [l]
  | .function f => FunctionDef.lines f
  | .classDef _ _ methods _ l => l :: FunctionDef.linesAll methods

/-- The lines of statements and of what is in them. -/
def Stmt.linesAll : List Stmt → List Nat
  | [] => []
  | s :: ss => s.lines ++ Stmt.linesAll ss

/-- The lines of a statement, if there is one. -/
def Stmt.linesOption : Option Stmt → List Nat
  | none => []
  | some s => s.lines

/-- The lines of a function definition. -/
def FunctionDef.lines : FunctionDef Stmt → List Nat
  | ⟨_, _, body, _, _, line⟩ => line :: Stmt.linesAll body

/-- The lines of function definitions. -/
def FunctionDef.linesAll : List (FunctionDef Stmt) → List Nat
  | [] => []
  | f :: fs => FunctionDef.lines f ++ FunctionDef.linesAll fs

end

/-- The lines of all nodes of a script. -/
def Script.lines (script : Script) : List Nat := Stmt.linesAll script.statements

theorem FunctionDef.lines_eq (f : FunctionDef Stmt) :
    f.lines = f.line :: Stmt.linesAll f.body := by
  cases f
  rfl

theorem FunctionDef.mem_linesAll {fs : List (FunctionDef Stmt)} {f : FunctionDef Stmt} {l : Nat}
    (hf : f ∈ fs) (hl : l ∈ f.lines) : l ∈ FunctionDef.linesAll fs := by
  induction fs with
  | nil => cases hf
  | cons g fs ih =>
    unfold FunctionDef.linesAll
    rcases List.mem_cons.1 hf with rfl | hf
    · exact List.mem_append_left _ hl
    · exact List.mem_append_right _ (ih hf)

/-! ## Lines of programs in a state -/

section

variable (L : Nat → Prop)

/-- The function is not of a host, and the lines of its body are in `L`. -/
def Callable.Lined : Callable → Prop
  | .script _ body _ => ∀ l ∈ Stmt.linesAll body, L l
  | .host _ _ => False
  | _ => True

/-- The lines of all methods are in `L`. -/
def ObjectType.Lined (t : ObjectType) : Prop := ∀ m ∈ t.methods.entries, m.2.Lined L

/-- The lines of what a value can call are in `L`. -/
def Value.Lined : Value → Prop
  | .function f _ => f.Lined L
  | .objectType t => t.Lined L
  | _ => True

/-- The lines of all programs in the state are in `L`. -/
structure State.Lined (s : State) : Prop where
  cells : ∀ v ∈ s.store.cells, v.Lined L
  types : ∀ scope ∈ s.globals, ∀ t ∈ scope.types.entries, t.2.Lined L

/-- A line in `L`, or none if that is left open. -/
def LineIn (isOpen : Bool) : Option Nat → Prop
  | none => isOpen = true
  | some l => L l

/-- A failure of a script has a line in `L`, or none if that is left open. -/
def Failure.In (isOpen : Bool) : Failure → Prop
  | .script _ line => LineIn L isOpen line
  | _ => True

end

variable {L : Nat → Prop}

theorem LineIn.weaken {isOpen : Bool} {line : Option Nat} (h : LineIn L false line) :
    LineIn L isOpen line := by
  cases line with
  | none => cases h
  | some l => exact h

theorem Failure.In.weaken {isOpen : Bool} {f : Failure} (h : f.In L false) : f.In L isOpen := by
  cases f with
  | script cause line => exact LineIn.weaken h
  | _ => exact trivial

/-- Whoever adds a line closes what was left open. -/
theorem Failure.In.located {isOpen : Bool} {line : Option Nat} {f : Failure}
    (hl : LineIn L isOpen line) (h : f.In L true) : (f.located line).In L isOpen := by
  cases f with
  | script cause l =>
    cases l with
    | none => exact hl
    | some l => exact h
  | _ => exact trivial

theorem Failure.In.overrun {isOpen : Bool} {line : Option Nat} {f : Failure}
    (hl : LineIn L isOpen line) (h : f.In L isOpen) : (Exec.overrun line f).In L isOpen := by
  cases f with
  | exhausted => exact hl
  | script cause l => exact h
  | _ => exact trivial

/-- A type that is found stands in one of the scopes. -/
theorem State.mem_of_findTypeIn {name : String} {t : ObjectType} {scopes : List Scope}
    (h : findTypeIn name scopes = some t) :
    ∃ scope ∈ scopes, (name, t) ∈ scope.types.entries := by
  induction scopes with
  | nil => cases h
  | cons scope below ih =>
    unfold findTypeIn at h
    split at h
    · next u hu =>
      cases h
      exact ⟨scope, List.mem_cons_self, Bindings.mem_of_lookup hu⟩
    · obtain ⟨sc, hsc, hmem⟩ := ih h
      exact ⟨sc, List.mem_cons_of_mem _ hsc, hmem⟩

namespace State.Lined

variable {s : State}

/-- The value of a cell has its lines in `L`. -/
theorem value (h : s.Lined L) (c : Cell) : (s.store.get c).Lined L := by
  unfold Store.get
  cases hv : s.store.cells[c.index]? with
  | none => exact trivial
  | some v => exact h.cells v (Array.mem_of_getElem? hv)

/-- The type of a name has its lines in `L`. -/
theorem type (h : s.Lined L) {name : String} {t : ObjectType} (ht : s.findType? name = some t) :
    t.Lined L := by
  obtain ⟨scope, hscope, hmem⟩ := State.mem_of_findTypeIn ht
  exact h.types scope hscope _ hmem

/-- Only the storage and the global scopes hold programs. -/
theorem congr {t : State} (h : s.Lined L) (hs : t.store = s.store) (hg : t.globals = s.globals) :
    t.Lined L :=
  ⟨hs ▸ h.cells, hg ▸ h.types⟩

end State.Lined

/-! ## Located steps -/

namespace Exec

variable {α β : Type}

/-- Begun where all programs have their lines in `L`, the step ends there, and a failure has its
line in `L`, or none if that is left open. -/
structure Located (L : Nat → Prop) (isOpen : Bool) (Q : α → Prop) (x : Exec α) : Prop where
  ends : ∀ s : State, s.Lined L → x.Ends s (fun a t => Q a ∧ t.Lined L)
    fun f t => f.In L isOpen ∧ t.Lined L

namespace Located

variable {o : Bool} {P Q : α → Prop}

theorem pure {a : α} (h : Q a) : Located L o Q (pure a) := ⟨fun _ hs => ⟨h, hs⟩⟩

theorem throw {f : Failure} (h : f.In L o) : Located L o Q (throw f : Exec α) :=
  ⟨fun _ hs => ⟨h, hs⟩⟩

theorem fail {cause : Cause} {line : Option Nat} (h : LineIn L o line) :
    Located L o Q (fail cause line : Exec α) :=
  throw (f := .script cause line) h

theorem bind {R : β → Prop} {x : Exec α} {f : α → Exec β} (hx : Located L o P x)
    (hf : ∀ a, P a → Located L o R (f a)) : Located L o R (x >>= f) :=
  ⟨fun s hs => Ends.bind (hx.ends s hs) fun a t ⟨ha, ht⟩ => (hf a ha).ends t ht⟩

theorem weaken {x : Exec α} (h : Located L false Q x) : Located L o Q x :=
  ⟨fun s hs => (h.ends s hs).mono (fun _ _ h => h) fun _ _ ⟨hf, ht⟩ => ⟨hf.weaken, ht⟩⟩

/-- A step with an open place is given a line. -/
theorem located {x : Exec α} {line : Option Nat} (hl : LineIn L o line) (h : Located L true Q x) :
    Located L o Q (mapFailure (Failure.located line) x) :=
  ⟨fun s hs => Ends.mapFailure ((h.ends s hs).mono (fun _ _ h => h)
    fun _ _ ⟨hf, ht⟩ => ⟨hf.located hl, ht⟩)⟩

theorem overrun {x : Exec α} {line : Option Nat} (hl : LineIn L o line) (h : Located L o Q x) :
    Located L o Q (mapFailure (overrun line) x) :=
  ⟨fun s hs => Ends.mapFailure ((h.ends s hs).mono (fun _ _ h => h)
    fun _ _ ⟨hf, ht⟩ => ⟨hf.overrun hl, ht⟩)⟩

theorem ensuring {x : Exec α} {finish : Exec Unit} (hx : Located L o Q x)
    (hf : Located L o (fun _ => True) finish) : Located L o Q (ensuring x finish) := by
  refine ⟨fun s hs => Ends.ensuring ((hx.ends s hs).mono ?_ ?_)⟩
  · rintro a t ⟨ha, ht⟩
    exact (hf.ends t ht).mono (fun _ _ h => ⟨ha, h.2⟩) fun _ _ h => h
  · rintro f t ⟨hin, ht⟩
    exact (hf.ends t ht).mono (fun _ _ h => ⟨hin, h.2⟩) fun _ _ h => h

/-- Reading something of the state. -/
theorem read {f : State → α} (h : ∀ s : State, s.Lined L → Q (f s)) :
    Located L o Q (do return f (← get)) :=
  ⟨fun s hs => ⟨h s hs, hs⟩⟩

/-- A step that depends on the state. -/
theorem choose {f : State → Exec α} (h : ∀ s, Located L o Q (f s)) : Located L o Q (get >>= f) :=
  ⟨fun s hs => (h s).ends s hs⟩

/-- A change of what holds no programs. -/
theorem update {f : State → State} (hs : ∀ s, (f s).store = s.store)
    (hg : ∀ s, (f s).globals = s.globals) : Located L o (fun _ => True) (modify f) :=
  ⟨fun s h => ⟨trivial, h.congr (hs s) (hg s)⟩⟩

/-- A change of the storage. -/
theorem allocate {f : Store → α × Store}
    (h : ∀ s : Store, (∀ v ∈ s.cells, v.Lined L) → Q (f s).1 ∧ ∀ v ∈ (f s).2.cells, v.Lined L) :
    Located L o Q (allocate f) :=
  ⟨fun s hs => ⟨(h s.store hs.cells).1, (h s.store hs.cells).2, hs.types⟩⟩

/-- A change of the storage beside its cells. -/
theorem allocate_beside {f : Store → α × Store} (h : ∀ s, (f s).2.cells = s.cells) :
    Located L o (fun _ => True) (Exec.allocate f) :=
  allocate fun s hs => ⟨trivial, (h s).symm ▸ hs⟩

theorem updateStore {f : Store → Store} (h : ∀ s, (f s).cells = s.cells) :
    Located L o (fun _ => True) (updateStore f) :=
  allocate_beside (f := fun s => ((), f s)) h

theorem storage : Located L o (fun _ => True) storage := read fun _ _ => trivial

theorem value (c : Cell) : Located L o (Value.Lined L) (value c) := read fun _ hs => hs.value c

theorem newCell {v : Value} (hv : v.Lined L) : Located L o (fun _ => True) (newCell v) := by
  refine allocate fun s hs => ⟨trivial, fun w hw => ?_⟩
  rcases Array.mem_push.1 hw with hw | rfl
  · exact hs w hw
  · exact hv

theorem ofNumber (x : Except NumberFault α) : Located L o (fun _ => True) (ofNumber x) := by
  cases x with
  | ok a => exact pure trivial
  | error f => exact throw trivial

theorem forIn (xs : List α) {f : α → Exec PUnit}
    (h : ∀ a ∈ xs, Located L o (fun _ => True) (f a)) :
    Located L o (fun _ => True)
      (forIn xs PUnit.unit fun a _ => f a >>= fun _ => Pure.pure (.yield PUnit.unit)) := by
  induction xs with
  | nil => exact pure trivial
  | cons a xs ih =>
    simp only [List.forIn_cons, bind_assoc, pure_bind]
    exact (h a List.mem_cons_self).bind fun _ _ => ih fun b hb => h b (List.mem_cons_of_mem _ hb)

end Located

end Exec

end CellScript
