import CellScript.Proofs.Places

/-!
# Well-formed trees

What a run relies on without looking: jumps stand in loops, assignments and increments act on
places, parameters and methods have different names, colors have as many components as there are
kinds of colors, and operands are read and not made.

* `Expr.parts`, `Stmt.parts`, `Stmt.inner`: what stands directly inside of a node;
* `Stmt.At`: a statement stands among others, in a loop body or not;
* `Expr.Formed`, `Stmt.Formed`: every node keeps to its own rule, `Expr.Sound` or `Stmt.Sound`;
* `Stmt.Formed.closed`, `Stmt.Formed.placed`: so jumps have their loops, and places are used as they
  are.
-/

namespace CellScript

/-! ## What stands inside of a node -/

/-- The expressions directly inside an expression, and how each is used there. -/
@[simp]
def Expr.parts : Expr → List (Use × Expr)
  | .color es _ | .list es _ | .new _ es _ => es.map (.operand, ·)
  | .vector a b _ | .index a b _ _ | .arithmetic _ a b _ | .relational _ a b _ | .logical _ a b _ =>
    [(.operand, a), (.operand, b)]
  | .member e _ _ _ | .negate e _ | .not e _ => [(.operand, e)]
  | .call f es _ => (.operand, f) :: es.map (.operand, ·)
  | .preIncrement e _ _ | .postIncrement e _ _ => [(.location, e)]
  | .integer _ _ | .real _ _ | .string _ _ | .boolean _ _ | .undefined _ | .name _ _ _ => []

/-- The expressions directly inside a statement, and how each is used there. -/
@[simp]
def Stmt.parts : Stmt → List (Use × Expr)
  | .expression e => [(.location, e)]
  | .assign target value _ | .update _ target value _ => [(.location, target), (.operand, value)]
  | .branch c _ _ _ | .whileLoop c _ _ | .doWhile c _ _ | .forLoop _ c _ _ _ => [(.operand, c)]
  | .return value _ => value.toList.map (.operand, ·)
  | _ => []

/-- The statements directly inside a statement, each with whether it stands in a loop body, given
whether the statement itself does. -/
@[simp]
def Stmt.inner (inLoop : Bool) : Stmt → List (Bool × Stmt)
  | .realize _ body _ | .include _ body _ => body.map (false, ·)
  | .block body _ => body.map (inLoop, ·)
  | .branch _ positive negative _ => (inLoop, positive) :: negative.toList.map (inLoop, ·)
  | .loop body _ | .whileLoop _ body _ | .doWhile _ body _ => [(true, body)]
  | .forLoop init _ step body _ => [(inLoop, init), (inLoop, step), (true, body)]
  | .function f => f.body.map (false, ·)
  | .classDef _ _ methods _ _ => methods.flatMap fun f => f.body.map (false, ·)
  | _ => []

/-- The statement stands among `ss`, at any depth: `outer` says whether these stand in a loop body,
and `inLoop` whether the statement does. Functions, realizations and included files begin outside of
loops. -/
inductive Stmt.At (st : Stmt) (inLoop : Bool) : (outer : Bool) → List Stmt → Prop
  | here {ss : List Stmt} : At st inLoop inLoop (st :: ss)
  | later {b : Bool} {s : Stmt} {ss : List Stmt} : At st inLoop b ss → At st inLoop b (s :: ss)
  | realize {b : Bool} {t : String} {body ss : List Stmt} {l : Nat} : At st inLoop false body →
    At st inLoop b (.realize t body l :: ss)
  | include {b : Bool} {path : String} {body ss : List Stmt} {l : Nat} : At st inLoop false body →
    At st inLoop b (.include path body l :: ss)
  | block {b : Bool} {body ss : List Stmt} {l : Nat} : At st inLoop b body →
    At st inLoop b (.block body l :: ss)
  | positive {b : Bool} {e : Expr} {s : Stmt} {o : Option Stmt} {ss : List Stmt} {l : Nat} :
    At st inLoop b [s] → At st inLoop b (.branch e s o l :: ss)
  | negative {b : Bool} {e : Expr} {s t : Stmt} {ss : List Stmt} {l : Nat} : At st inLoop b [t] →
    At st inLoop b (.branch e s (some t) l :: ss)
  | loop {b : Bool} {s : Stmt} {ss : List Stmt} {l : Nat} : At st inLoop true [s] →
    At st inLoop b (.loop s l :: ss)
  | whileLoop {b : Bool} {e : Expr} {s : Stmt} {ss : List Stmt} {l : Nat} :
    At st inLoop true [s] → At st inLoop b (.whileLoop e s l :: ss)
  | doWhile {b : Bool} {e : Expr} {s : Stmt} {ss : List Stmt} {l : Nat} : At st inLoop true [s] →
    At st inLoop b (.doWhile e s l :: ss)
  | init {b : Bool} {e : Expr} {init step s : Stmt} {ss : List Stmt} {l : Nat} :
    At st inLoop b [init] → At st inLoop b (.forLoop init e step s l :: ss)
  | step {b : Bool} {e : Expr} {init step s : Stmt} {ss : List Stmt} {l : Nat} :
    At st inLoop b [step] → At st inLoop b (.forLoop init e step s l :: ss)
  | forBody {b : Bool} {e : Expr} {init step s : Stmt} {ss : List Stmt} {l : Nat} :
    At st inLoop true [s] → At st inLoop b (.forLoop init e step s l :: ss)
  | function {b : Bool} {f : FunctionDef Stmt} {ss : List Stmt} : At st inLoop false f.body →
    At st inLoop b (.function f :: ss)
  | method {b i : Bool} {name : String} {fs : List (FunctionDef Stmt)} {f : FunctionDef Stmt}
    {id : DefId} {ss : List Stmt} {l : Nat} : f ∈ fs → At st inLoop false f.body →
    At st inLoop b (.classDef i name fs id l :: ss)

/-! ## The rules -/

/-- The rule of an expression that is used in the given way: a place is marked so, what is
incremented is a place, and a color is a packed number or has three or four components. -/
def Expr.Sound (use : Use) : Expr → Prop
  | .name _ u _ | .member _ _ u _ | .index _ _ u _ => u = use
  | .color es _ => es.length = 1 ∨ es.length = 3 ∨ es.length = 4
  | .preIncrement e _ _ | .postIncrement e _ _ => e.isLocation = true
  | _ => True

/-- Every node of the expression keeps to its rule. -/
inductive Expr.Formed : Use → Expr → Prop
  | node {use : Use} {e : Expr} (sound : e.Sound use)
    (parts : ∀ part ∈ e.parts, Expr.Formed part.1 part.2) : Expr.Formed use e

/-- Whether a statement has no others inside of it and is no jump. -/
def Stmt.isSimple : Stmt → Bool
  | .expression _ | .assign _ _ _ | .update _ _ _ _ | .nop _ => true
  | _ => false

/-- The rule of a statement, given whether it stands in a loop body: only there are jumps,
assignments are to places, and parameters and methods have different names. -/
def Stmt.Sound (inLoop : Bool) : Stmt → Prop
  | .break _ | .continue _ => inLoop = true
  | .assign target _ _ | .update _ target _ _ => target.isLocation = true
  | .forLoop init _ step _ _ => init.isSimple = true ∧ step.isSimple = true
  | .function f => f.parameters.Nodup
  | .classDef _ _ methods _ _ =>
    (methods.map (·.name)).Nodup ∧ ∀ f ∈ methods, f.parameters.Nodup
  | _ => True

/-- Every node of the statement keeps to its rule. -/
inductive Stmt.Formed : Bool → Stmt → Prop
  | node {inLoop : Bool} {st : Stmt} (sound : st.Sound inLoop)
    (parts : ∀ part ∈ st.parts, part.2.Formed part.1)
    (inner : ∀ s ∈ st.inner inLoop, Stmt.Formed s.1 s.2) : Stmt.Formed inLoop st

/-! ## Expressions -/

namespace Expr

variable {use : Use} {e : Expr}

theorem Formed.sound (h : e.Formed use) : e.Sound use := by
  cases h
  assumption

theorem Formed.part (h : e.Formed use) {part : Use × Expr} (hpart : part ∈ e.parts) :
    part.2.Formed part.1 := by
  cases h with
  | node _ parts => exact parts part hpart

/-- What is taken as an operand is marked as one. -/
theorem Formed.asOperand (h : e.Formed use) : e.asOperand.Formed .operand := by
  have parts : ∀ part ∈ e.parts, part.2.Formed part.1 := fun _ hpart => h.part hpart
  have sound := h.sound
  cases e with
  | name | member | index => exact .node rfl parts
  | _ => exact .node sound parts

section

variable {a b : Expr} {l : Nat} (ha : a.Formed .operand) (hb : b.Formed .operand)

include ha hb

theorem Formed.arithmetic (op : ArithmeticOp) : (Expr.arithmetic op a b l).Formed use :=
  .node trivial (by simp [ha, hb])

theorem Formed.relational (op : RelationalOp) : (Expr.relational op a b l).Formed use :=
  .node trivial (by simp [ha, hb])

theorem Formed.logical (op : LogicalOp) : (Expr.logical op a b l).Formed use :=
  .node trivial (by simp [ha, hb])

end

theorem Formed.isLocation_eq_false (h : e.Formed .operand) : e.isLocation = false := by
  have sound := h.sound
  cases e with
  | name _ u _ | member _ _ u _ | index _ _ u _ =>
    cases sound
    rfl
  | _ => rfl

theorem Formed.placed (h : e.Formed use) : e.placed use = true := by
  induction h with
  | @node use e sound parts ih =>
    cases e with
    | color es _ | list es _ | new _ es _ =>
      simpa [Expr.placed, operands_iff] using ih
    | call f es _ => simpa [Expr.placed, operands_iff] using ih
    | _ => simp_all [Expr.placed, Sound]

end Expr

/-! ## Statements -/

namespace Stmt

variable {inLoop : Bool} {st : Stmt}

theorem Formed.sound (h : st.Formed inLoop) : st.Sound inLoop := by
  cases h
  assumption

theorem Formed.part (h : st.Formed inLoop) {part : Use × Expr} (hpart : part ∈ st.parts) :
    part.2.Formed part.1 := by
  cases h with
  | node _ parts _ => exact parts part hpart

theorem Formed.inside (h : st.Formed inLoop) {s : Bool × Stmt} (hs : s ∈ st.inner inLoop) :
    s.2.Formed s.1 := by
  cases h with
  | node _ _ inner => exact inner s hs

theorem closed_of_isSimple (h : st.isSimple = true) : st.closed inLoop = true := by
  cases st with
  | expression | assign | update | nop => simp only [Stmt.closed]
  | _ => cases h

end Stmt

namespace Stmt.Formed

variable {inLoop : Bool} {st : Stmt}

/-- The jumps of a well-formed statement have their loops. -/
theorem closed (h : st.Formed inLoop) : st.closed inLoop = true := by
  induction h with
  | @node inLoop st sound parts inner ih =>
    cases st with
    | realize | «include» | block => simpa [Stmt.closed, closedAll_iff] using ih
    | function f => simpa [Stmt.closed, FunctionDef.closed_eq, closedAll_iff] using ih
    | classDef _ _ fs _ _ =>
      simp only [Stmt.closed, FunctionDef.closedAll_iff, closedAll_iff]
      exact fun f hf s hs => ih (false, s) (by simpa using ⟨f, hf, hs⟩)
    | branch c positive negative l =>
      cases negative <;> simp_all [Stmt.closed, closedOption]
    | forLoop init c step body l =>
      simp [Stmt.closed, closed_of_isSimple sound.1, closed_of_isSimple sound.2,
        ih (true, body) (by simp)]
    | _ => simp_all [Stmt.closed, Sound]

/-- The places of a well-formed statement are used as they are. -/
theorem placed (h : st.Formed inLoop) : st.placed = true := by
  induction h with
  | @node inLoop st sound parts inner ih =>
    have parts : ∀ part ∈ st.parts, part.2.placed part.1 = true :=
      fun part h => (parts part h).placed
    cases st with
    | realize | «include» | block => simpa [Stmt.placed, placedAll_iff] using ih
    | function f => simpa [Stmt.placed, FunctionDef.placed_eq, placedAll_iff] using ih
    | classDef _ _ fs _ _ =>
      simp only [Stmt.placed, FunctionDef.placedAll_iff, placedAll_iff]
      exact fun f hf s hs => ih (false, s) (by simpa using ⟨f, hf, hs⟩)
    | branch c positive negative l =>
      cases negative <;> simp_all [Stmt.placed, placedOption]
    | «return» value l => cases value <;> simp_all [Stmt.placed]
    | _ => simp_all [Stmt.placed, Sound]

/-- Every statement among well-formed ones is well formed. -/
theorem among {outer : Bool} {ss : List Stmt} (h : st.At inLoop outer ss) :
    (∀ s ∈ ss, s.Formed outer) → st.Formed inLoop := by
  have single {b : Bool} {s : Stmt} (hs : s.Formed b) : ∀ t ∈ [s], t.Formed b :=
    List.forall_mem_singleton.2 hs
  induction h with
  | here => exact fun hs => hs st List.mem_cons_self
  | later _ ih => exact fun hs => ih fun s h => hs s (List.mem_cons_of_mem _ h)
  | realize _ ih | «include» _ ih | function _ ih =>
    exact fun hs => ih fun s h => (hs _ List.mem_cons_self).inside (s := (false, s))
      (by simpa using h)
  | @block b _ _ _ _ ih =>
    exact fun hs => ih fun s h => (hs _ List.mem_cons_self).inside (s := (b, s))
      (by simpa using h)
  | method hf _ ih =>
    exact fun hs => ih fun s h => (hs _ List.mem_cons_self).inside (s := (false, s))
      (by simpa using ⟨_, hf, h⟩)
  | @positive b e s o ss l _ ih | @negative b e t s ss l _ ih | @init b e s step body ss l _ ih
  | @step b e init s body ss l _ ih =>
    exact fun hs => ih (single ((hs _ List.mem_cons_self).inside (s := (b, s))
      (by simp)))
  | @loop b s ss l _ ih | @whileLoop b e s ss l _ ih | @doWhile b e s ss l _ ih
  | @forBody b e init step s ss l _ ih =>
    exact fun hs => ih (single ((hs _ List.mem_cons_self).inside (s := (true, s))
      (by simp)))

end Stmt.Formed

end CellScript
