import Mathlib
import CellScript.Proofs.Binding.Layers

/-!
# Names that are found stay found

A name that is found may be hidden by a statement that declares it as global, and by nothing else: a
name is made only where it is not found, and what a call or a block binds goes with its scopes. An
expression holds no statements but those of the functions it calls, so it leaves every name that is
found with its cell. That is why an update of a name comes to the same as the assignment that it
stands for: when the assignment looks for its target, the target is the cell that the update has
begun with.

* `ProgramOrder.finding`: no program hides a global name behind another one, and `Layers.finding`:
  nor other names, where none is declared as global;
* `Exec.KeepsNames`: a step leaves names found, and `found_withFuel`: all expressions do;
* `update_eq_assign`: an update does what the assignment does.
-/

namespace CellScript

open Exec (Along Framed FramedAlways)

/-! ## Global names -/

/-- Global names that are found stay found, with their cells. -/
def State.KeepsFound (s t : State) : Prop :=
  ∀ name c, s.findGlobal? name = some c → t.findGlobal? name = some c

/-- Names that are found stay found, with their cells. -/
def State.KeepsNames (s t : State) : Prop :=
  ∀ name c, s.find? name = some c → t.find? name = some c

namespace State

variable {s t u : State}

theorem KeepsFound.of_eq (h : t.globals = s.globals) : s.KeepsFound t := by
  intro name c found
  rw [findGlobal?, h]
  exact found

/-- A change of the top global scope that nothing searches for. -/
theorem KeepsFound.replaceTop {top new : Scope} {below : List Scope}
    (hg : s.globals = top :: below) (h : new.items = top.items) :
    s.KeepsFound { s with globals := new :: below } := by
  intro name c found
  simp only [findGlobal?, hg, findGlobalIn, h] at found ⊢
  exact found

/-- A name that is not found can be bound in the top global scope. -/
theorem KeepsFound.addGlobal {top : Scope} {below : List Scope} {name : String} (c : Cell)
    (hg : s.globals = top :: below) (h : s.findGlobal? name = none) :
    s.KeepsFound { s with globals := top.add name c :: below } := by
  intro other d found
  have ne : name ≠ other := by
    rintro rfl
    rw [h] at found
    cases found
  simp only [findGlobal?, hg, findGlobalIn, Scope.add, Bindings.find?_insert, ne, if_false]
    at found ⊢
  exact found

/-- Where the local scopes are as they were, only global names matter. -/
theorem KeepsNames.of_locals (hl : t.locals = s.locals) (hg : s.KeepsFound t) :
    s.KeepsNames t := by
  intro name c found
  unfold find? findLocal? chain at found ⊢
  rw [hl]
  cases hf : Scope.findIn name (chainOf s.locals) with
  | some d => rwa [hf] at found
  | none =>
    rw [hf] at found
    exact hg name c found

theorem KeepsNames.trans (h : s.KeepsNames t) (h' : t.KeepsNames u) : s.KeepsNames u :=
  fun name c hc => h' name c (h name c hc)

/-- A change of the innermost local scope that nothing searches for. -/
theorem KeepsNames.mapTop (s : State) {f : Scope → Scope} (hi : ∀ a, (f a).items = a.items)
    (hn : ∀ a, (f a).globalNames = a.globalNames) : s.KeepsNames (s.mapTop f) := by
  have same : (s.mapTop f).find? = s.find? := by
    funext name
    cases hl : s.locals with
    | nil => simp only [State.mapTop, hl]
    | cons top below =>
      simp only [find?, findLocal?, findGlobal?, chain, State.mapTop, hl, chainOf, Scope.findIn,
        hi, hn]
  intro name c found
  rw [same]
  exact found

/-- A name that is not found can be bound in the innermost local scope. -/
theorem KeepsNames.addLocal {name : String} (c : Cell) (h : s.find? name = none) :
    s.KeepsNames (s.mapTop (·.add name c)) := by
  intro other d found
  have ne : name ≠ other := by
    rintro rfl
    rw [h] at found
    cases found
  cases hl : s.locals with
  | nil => simpa only [State.mapTop, hl] using found
  | cons top below =>
    simp only [find?, findLocal?, findGlobal?, chain, State.mapTop, hl, chainOf, Scope.findIn,
      Scope.add, Bindings.find?_insert, ne, if_false] at found ⊢
    exact found

end State

/-- Global names stay found. -/
def ProgramOrder.finding : ProgramOrder where
  Le := State.KeepsFound
  From _ := True
  Made _ := True
  refl _ _ _ h := h
  trans h h' name c hc := h' name c (h name c hc)
  keeps _ _ := trivial
  shared h := .of_eq h.globals
  anonymous _ hg := .replaceTop hg rfl
  addType _ hg _ := .replaceTop hg rfl
  addGlobal c hg h := .addGlobal c hg h
  allocObject _ _ := .of_eq rfl
  made _ := trivial
  setMember _ _ := .of_eq rfl
  promotes _ _ _ _ _ := .of_eq rfl

/-- Global names stay found, and so do names. -/
def Layers.finding : Layers where
  toHeapOrder := ProgramOrder.finding.toHeapOrder
  Inner := State.KeepsNames
  inner_trans h _ h' := h.trans h'
  level h hl := .of_locals hl h
  unnamed s _ hi hn := .mapTop s hi hn
  named h _ := .addLocal _ h

/-! ## The logic -/

/-- The step leaves the scopes steady, global names found, and names found. -/
abbrev Exec.KeepsNames {α : Type} (x : Exec α) : Prop := Exec.Layered .finding (fun _ => True) x

/-- Leaving names found is a logic of programs that declare no names as global. -/
def finding : NodeLogic (.declaring False) :=
  Layers.finding.logic (fun h => h.elim) fun obj _ hr h =>
    Exec.Layered.fillObject ProgramOrder.finding.promotes h obj hr

/-! ## Interpreters -/

/-- The functions of a host leave the scopes steady, and what is global and found stays found. -/
structure Host.KeepsFound (host : Host) : Prop where
  steady : Host.Steady (fun _ => False) host
  found : ProgramOrder.finding.OfHost host

/-- All expressions, and no statements. -/
def Nodes.expressions : Nodes := ⟨fun _ => True, fun _ _ => False⟩

theorem Expr.partsIn_expressions (e : Expr) : e.PartsIn (.declaring False) .expressions := by
  cases e with
  | string _ _ => exact trivial
  | name _ _ _ => exact fun _ => trivial
  | _ => simp [Expr.PartsIn, Nodes.expressions]

/-- Whatever is called leaves the names found that its caller finds. -/
theorem found_invokeWith {host : Host} (hh : host.KeepsFound) (n : Nat) (f : Callable)
    (owner : Option ObjectRef) (args : List Cell) (line : Option Nat) :
    Exec.KeepsNames (Exec.invokeWith host (Interp.withFuel host n) f owner args line) := by
  have full := Fragment.making_full fun _ => True
  have sparing := Fragment.making_full fun _ => ¬ False
  -- The body may declare names as global, so what it does is followed without a look at its scopes.
  have framed : Framed .outOfFuel (fun _ => False) State.Opened (fun _ => True)
      (Exec.runCallable host (Interp.withFuel host n) f line)
      (Exec.runCallable host (Interp.withFuel host n) f line) :=
    (Interp.outlasts hh.steady (Nat.le_refl n)).1.runCallable line trivial
      (fun name _ _ => hh.steady.framed name)
      fun _ body _ _ => ⟨sparing.declaresAll body, fun _ _ => trivial⟩
  have body : Exec.Inward .finding False (Exec.runCallable host (Interp.withFuel host n) f line) :=
    { steady := fun _ ho => (framed.steady _ ho).mono (fun _ _ h => h.2) fun _ _ h => h
      outer := (ProgramOrder.followed hh.found n).runCallable line trivial
        (fun name _ _ => hh.found.along name)
        fun _ body _ _ => ⟨full.declaresAll body, fun _ _ => trivial⟩
      both := fun h => h.elim }
  exact Exec.Layered.inCall body _ owner args line

/-- Whatever an expression is, its evaluation leaves names found, and so do calls and texts. -/
theorem found_withFuel {host : Host} (hh : host.KeepsFound) (n : Nat) :
    finding.AgreeOn .expressions (Interp.withFuel host n) (Interp.withFuel host n) := by
  refine NodeLogic.agreeOn_withFuel trivial trivial (fun {e} _ => e.partsIn_expressions)
    (fun h => h.elim) (Along.read fun _ => trivial) (fun {f inLoop ss} _ hs => ?_)
    (fun n _ {f} owner args line _ => found_invokeWith hh n f owner args line) n
  cases ss with
  | nil => exact Along.pure trivial
  | cons st ss => exact (hs st List.mem_cons_self).elim

/-! ## Updates -/

namespace Exec

/-- An assignment, which yields its target. -/
def assigning (self : Interp) (target value : Expr) (line : Nat) : Exec Cell := do
  let source ← self.evaluate value
  let c ← self.evaluate target
  assign c source (some line)
  return c

/-- An update, which yields its target. -/
def updating (self : Interp) (op : ArithmeticOp) (target value : Expr) (line : Nat) :
    Exec Cell := do
  let c ← self.evaluate target
  let v ← self.evaluate value
  assign c (← applyArithmetic self op c v (some line)) (some line)
  return c

variable {limit : Nat} {self : Interp} {target value : Expr} {line : Nat}

/-- As a statement, an assignment is made for what it does. -/
theorem executeWith_assign : executeWith limit self (.assign target value line) =
    assigning self target value line >>= fun _ => pure () := by
  simp only [executeWith, assigning, bind_assoc, pure_bind, bind_pure_unit]

theorem executeWith_update {op : ArithmeticOp} :
    executeWith limit self (.update op target value line) =
      updating self op target value line >>= fun _ => pure () := by
  simp only [executeWith, updating, bind_assoc, pure_bind, bind_pure_unit]

end Exec

/-- A name that is found is updated as it is assigned the result of the operation: the updated cell
that both yield, the state that they end in and the failure, if there is one, are the same, whatever
the value is and does. The assignment takes one more step down to the value and so needs one more
unit of fuel. -/
theorem update_eq_assign {host : Host} (hh : host.KeepsFound) (fuel : Nat) (op : ArithmeticOp)
    (name : String) (value : Expr) (line at₁ at₂ at₃ : Nat) {s : State}
    (hs : (s.find? name).isSome = true) :
    let target (at_ : Nat) := Expr.name name .location at_
    let operation := Expr.arithmetic op (.name name .operand at₃) value line
    Exec.updating (Interp.withFuel host fuel) op (target at₁) value line s =
        Exec.assigning (Interp.withFuel host (fuel + 1)) (target at₂) operation line s ∧
      (Interp.withFuel host (fuel + 1)).execute (.update op (target at₁) value line) s =
        (Interp.withFuel host (fuel + 2)).execute (.assign (target at₂) operation line) s := by
  intro target operation
  obtain ⟨c, found⟩ := Option.isSome_iff_exists.1 hs
  have yields : Exec.updating (Interp.withFuel host fuel) op (target at₁) value line s =
      Exec.assigning (Interp.withFuel host (fuel + 1)) (target at₂) operation line s := by
    cases fuel with
    | zero => rfl
    | succ n =>
      let p := Interp.withFuel host (n + 1)
      let operate (v : Cell) : Exec Cell := Exec.applyArithmetic p op c v (some line)
      let finish (d : Cell) : Exec Cell := do
        Exec.assign c d (some line)
        return c
      have here (use : Use) (at_ : Nat) : p.evaluate (.name name use at_) s = .ok c s :=
        Exec.evaluateName_of_some found use at_
      have updated : Exec.updating p op (target at₁) value line s =
          ((p.evaluate value >>= operate) >>= finish) s := by
        refine (Exec.bind_of_ok (here .location at₁)).trans ?_
        simp only [bind_assoc]
        rfl
      have operated : (Interp.withFuel host (n + 2)).evaluate operation s =
          (p.evaluate value >>= operate) s := Exec.bind_of_ok (here .operand at₃)
      -- Neither the value nor the operator's own method can make the name lead elsewhere.
      have on := found_withFuel hh (n + 1)
      have evaluated : Exec.KeepsNames (p.evaluate value) := on.evaluate (e := value) trivial
      have kept : Exec.KeepsNames (p.evaluate value >>= operate) :=
        evaluated.bind fun v _ => on.applyArithmetic op c v (some line)
      rw [updated]
      refine Eq.trans ?_ (Exec.bind_congr_left operated _).symm
      refine Exec.Ends.bind_congr ((kept s trivial).mono (fun d t ht => ?_) fun _ _ h => h)
      have there : (Interp.withFuel host (n + 2)).evaluate (target at₂) t = .ok c t :=
        Exec.evaluateName_of_some (ht.2.1.2 name c found) .location at₂
      rw [Exec.bind_of_ok there]
  refine ⟨yields, ?_⟩
  have executed (n : Nat) (st : Stmt) : (Interp.withFuel host (n + 1)).execute st =
      Exec.executeWith n (Interp.withFuel host n) st := rfl
  rw [executed, executed, Exec.executeWith_update, Exec.executeWith_assign]
  exact Exec.bind_congr_left yields _

/-- `x += x++` with three in `x`: the operator finds four there, adds the three that the increment
has given, and seven is assigned. -/
theorem update_eq_assign_incremented :
    let host : Host := fun name => do Exec.print name; return none
    let t := (State.initial 200).restart
    let s : State := { t with
      store := (Store.empty.alloc (.integer 3)).2, globals := [Scope.empty.add "x" ⟨0⟩] }
    let x (use : Use) := Expr.name "x" use 1
    let value := Expr.postIncrement (x .location) .up 1
    host.KeepsFound ∧
      Exec.updating (Interp.withFuel host 5) .add (x .location) value 1 s =
        Exec.assigning (Interp.withFuel host 6) (x .location)
          (.arithmetic .add (x .operand) value 1) 1 s ∧
      Exec.result? ((do Exec.value (← Exec.updating (Interp.withFuel host 5) .add (x .location)
        value 1)) s) = some (.integer 7) := by
  intro host t s x value
  have keeps : host.KeepsFound := ⟨fun _ _ => .of_eq rfl rfl rfl, fun _ _ _ => .of_eq rfl⟩
  have same := update_eq_assign keeps 5 .add "x" value 1 1 1 1 (s := s) (by cbv)
  exact ⟨keeps, same.1, by cbv⟩

end CellScript
