import CellScript.Proofs.Congruence.Interp
import CellScript.Proofs.Congruence.Free

/-!
# Programs without loops and texts

Programs without loops repeat themselves only through calls. If they have no text literals either,
then no cell ever holds a text, and nothing is turned into one: all calls that there are stand in
the programs.

* `Script.straight`: a script without loops and text literals;
* `Fragment.straight bound`: the part of the language that such scripts need, where no function body
  is larger than a bound;
* `Nodes.straight size`: the nodes of such programs up to a size.
-/

namespace CellScript

/-! ## Syntax -/

mutual

/-- Whether there is no text literal in an expression. -/
def Expr.textless : Expr → Bool
  | .string _ _ => false
  | .color es _ => Expr.textlessAll es
  | .vector x y _ => x.textless && y.textless
  | .list es _ => Expr.textlessAll es
  | .member target _ _ _ => target.textless
  | .index target position _ _ => target.textless && position.textless
  | .call function arguments _ => function.textless && Expr.textlessAll arguments
  | .new _ arguments _ => Expr.textlessAll arguments
  | .negate e _ => e.textless
  | .not e _ => e.textless
  | .preIncrement e _ _ => e.textless
  | .postIncrement e _ _ => e.textless
  | .arithmetic _ lhs rhs _ => lhs.textless && rhs.textless
  | .relational _ lhs rhs _ => lhs.textless && rhs.textless
  | .logical _ lhs rhs _ => lhs.textless && rhs.textless
  | _ => true

/-- Whether there is no text literal in expressions. -/
def Expr.textlessAll : List Expr → Bool
  | [] => true
  | e :: es => e.textless && Expr.textlessAll es

end

mutual

/-- Whether there is no loop and no text literal in a statement. -/
def Stmt.straight : Stmt → Bool
  | .expression e => e.textless
  | .assign target value _ => target.textless && value.textless
  | .update _ target value _ => target.textless && value.textless
  | .realize _ body _ => Stmt.straightAll body
  | .include _ body _ => Stmt.straightAll body
  | .block body _ => Stmt.straightAll body
  | .branch condition positive negative _ =>
    condition.textless && positive.straight && Stmt.straightOption negative
  | .loop _ _ => false
  | .whileLoop _ _ _ => false
  | .doWhile _ _ _ => false
  | .forLoop _ _ _ _ _ => false
  | .return value _ => value.all Expr.textless
  | .function f => FunctionDef.straight f
  | .classDef _ _ methods _ _ => FunctionDef.straightAll methods
  | _ => true

/-- Whether there is no loop and no text literal in statements. -/
def Stmt.straightAll : List Stmt → Bool
  | [] => true
  | s :: ss => s.straight && Stmt.straightAll ss

/-- Whether there is no loop and no text literal in a statement, if there is one. -/
def Stmt.straightOption : Option Stmt → Bool
  | none => true
  | some s => s.straight

/-- Whether there is no loop and no text literal in a function. -/
def FunctionDef.straight : FunctionDef Stmt → Bool
  | ⟨_, _, body, _, _, _⟩ => Stmt.straightAll body

/-- Whether there is no loop and no text literal in functions. -/
def FunctionDef.straightAll : List (FunctionDef Stmt) → Bool
  | [] => true
  | f :: fs => FunctionDef.straight f && FunctionDef.straightAll fs

end

/-- Whether there is no loop and no text literal in a script. -/
def Script.straight (script : Script) : Bool := Stmt.straightAll script.statements

theorem Expr.textlessAll_iff {es : List Expr} :
    Expr.textlessAll es = true ↔ ∀ e ∈ es, e.textless = true := by
  induction es with
  | nil => simp [Expr.textlessAll]
  | cons e es ih => simp [Expr.textlessAll, ih]

theorem Stmt.straightAll_iff {ss : List Stmt} :
    Stmt.straightAll ss = true ↔ ∀ s ∈ ss, s.straight = true := by
  induction ss with
  | nil => simp [Stmt.straightAll]
  | cons s ss ih => simp [Stmt.straightAll, ih]

theorem FunctionDef.straight_eq (f : FunctionDef Stmt) :
    f.straight = Stmt.straightAll f.body := by
  cases f
  rfl

theorem FunctionDef.straightAll_iff {fs : List (FunctionDef Stmt)} :
    FunctionDef.straightAll fs = true ↔ ∀ f ∈ fs, Stmt.straightAll f.body = true := by
  induction fs with
  | nil => simp [FunctionDef.straightAll]
  | cons f fs ih => simp [FunctionDef.straightAll, FunctionDef.straight_eq, ih]

/-! ## The fragment -/

/-- Straight closed statements that are together no larger than a bound. -/
structure Stmt.Straight (bound : Nat) (body : List Stmt) : Prop where
  straight : Stmt.straightAll body = true
  closed : Stmt.closedAll false body = true
  size : sizeOf body ≤ bound

/-- A straight script function or a method of a built-in value. -/
def Callable.Straight (bound : Nat) : Callable → Prop
  | .script _ body _ => Stmt.Straight bound body
  | .builtin _ => False
  | .host _ _ => False
  | _ => True

/-- No text, and what can be called is straight. -/
def Value.Straight (bound : Nat) : Value → Prop
  | .function f _ => f.Straight bound
  | .objectType t => ∀ m ∈ t.methods.entries, m.2.Straight bound
  | .string _ => False
  | _ => True

/-- The language without loops, texts and standard functions, where function bodies are no larger
than a bound. A step may fail for any reason but want of fuel. -/
def Fragment.straight (bound : Nat) : Fragment where
  callable := Callable.Straight bound
  type t := ∀ m ∈ t.methods.entries, m.2.Straight bound
  value := Value.Straight bound
  failure f := f ≠ .outOfFuel
  creates _ := True
  texts := False
  loops := False
  jumps := False
  type_iff _ := Iff.rfl
  data {v} h := by
    cases v with
    | string t => cases h
    | function f owner => cases h
    | objectType t => cases h
    | _ => trivial
  value_function _ _ := Iff.rfl
  value_string _ := Iff.rfl
  colorMethod _ _ := trivial
  vectorMethod _ _ := trivial
  listMethod _ _ := trivial
  builtin h := h
  script _ _ := by simp
  number _ := by simp

/-- Textless expressions and straight closed statements up to a size. -/
def Nodes.straight (size : Nat) : Nodes where
  expr e := e.textless = true ∧ sizeOf e ≤ size
  stmt inLoop st := st.straight = true ∧ st.closed inLoop = true ∧ sizeOf st ≤ size

theorem FunctionDef.sizeOf_body_lt (f : FunctionDef Stmt) : sizeOf f.body < sizeOf f := by
  obtain ⟨name, parameters, body, bodyLine, id, line⟩ := f
  simp only [FunctionDef.mk.sizeOf_spec]
  omega

theorem Stmt.Straight.all {bound : Nat} {body : List Stmt} (h : Stmt.Straight bound body) :
    (Nodes.straight bound).all false body := fun st hst =>
  ⟨Stmt.straightAll_iff.1 h.straight st hst, Stmt.closedAll_iff.1 h.closed st hst,
    Nat.le_trans (Nat.le_of_lt (List.sizeOf_lt_of_mem hst)) h.size⟩

section

variable {bound : Nat}

mutual

/-- What a straight statement declares is no larger than the statement. -/
theorem Fragment.declares_straight : ∀ {inLoop : Bool} {st : Stmt}, st.straight = true →
    st.closed inLoop = true → sizeOf st ≤ bound → (Fragment.straight bound).declares st
  | _, .function f, hs, hc, hb => by
    rw [Stmt.straight, FunctionDef.straight_eq] at hs
    rw [Stmt.closed, FunctionDef.closed_eq] at hc
    have smaller := f.sizeOf_body_lt
    simp only [Stmt.function.sizeOf_spec] at hb
    exact ⟨hs, hc, by omega⟩
  | _, .classDef _ _ methods _ _, hs, hc, hb => by
    rw [Stmt.straight] at hs
    rw [Stmt.closed] at hc
    intro m hm
    have smaller := m.sizeOf_body_lt
    have among := List.sizeOf_lt_of_mem hm
    simp only [Stmt.classDef.sizeOf_spec] at hb
    exact ⟨FunctionDef.straightAll_iff.1 hs m hm, FunctionDef.closedAll_iff.1 hc m hm, by omega⟩
  | _, .include _ body _, hs, hc, hb => by
    rw [Stmt.straight] at hs
    rw [Stmt.closed] at hc
    rw [Fragment.declares]
    simp only [Stmt.include.sizeOf_spec] at hb
    exact Fragment.declaresAll_straight hs hc (by omega)
  | _, .expression _, _, _, _ | _, .assign _ _ _, _, _, _ | _, .update _ _ _ _, _, _, _
  | _, .realize _ _ _, _, _, _ | _, .nop _, _, _, _ | _, .block _ _, _, _, _
  | _, .branch _ _ _ _, _, _, _ | _, .loop _ _, _, _, _ | _, .whileLoop _ _ _, _, _, _
  | _, .doWhile _ _ _, _, _, _ | _, .forLoop _ _ _ _ _, _, _, _ | _, .break _, _, _, _
  | _, .continue _, _, _, _ | _, .return _ _, _, _, _ | _, .global _ _, _, _, _ => by
    unfold Fragment.declares
    trivial

/-- What straight statements declare is no larger than the statements. -/
theorem Fragment.declaresAll_straight : ∀ {inLoop : Bool} {ss : List Stmt},
    Stmt.straightAll ss = true → Stmt.closedAll inLoop ss = true → sizeOf ss ≤ bound →
    (Fragment.straight bound).declaresAll ss
  | _, [], _, _, _ => trivial
  | _, s :: ss, hs, hc, hb => by
    simp only [Stmt.straightAll, Bool.and_eq_true] at hs
    simp only [Stmt.closedAll, Bool.and_eq_true] at hc
    simp only [List.cons.sizeOf_spec] at hb
    exact ⟨Fragment.declares_straight hs.1 hc.1 (by omega),
      Fragment.declaresAll_straight hs.2 hc.2 (by omega)⟩

end

theorem Expr.partsIn_straight {size : Nat} {e : Expr}
    (h : (Nodes.straight (size + 1)).expr e) :
    e.PartsIn (.straight bound) (.straight size) := by
  obtain ⟨ht, hs⟩ := h
  have each {es : List Expr} (hes : Expr.textlessAll es = true) (hsize : sizeOf es ≤ size) :
      ∀ e ∈ es, (Nodes.straight size).expr e := fun e he =>
    ⟨Expr.textlessAll_iff.1 hes e he, Nat.le_trans (Nat.le_of_lt (List.sizeOf_lt_of_mem he)) hsize⟩
  cases e with
  | integer _ _ | real _ _ | boolean _ _ | undefined _ => trivial
  | name _ _ _ => exact fun _ => trivial
  | string _ _ => simp [Expr.textless] at ht
  | color es _ | list es _ | new _ es _ =>
    rw [Expr.textless] at ht
    simp only [Expr.color.sizeOf_spec, Expr.list.sizeOf_spec, Expr.new.sizeOf_spec] at hs
    exact each ht (by omega)
  | member e _ _ _ | negate e _ | not e _ | preIncrement e _ _ | postIncrement e _ _ =>
    rw [Expr.textless] at ht
    simp only [Expr.member.sizeOf_spec, Expr.negate.sizeOf_spec, Expr.not.sizeOf_spec,
      Expr.preIncrement.sizeOf_spec, Expr.postIncrement.sizeOf_spec] at hs
    exact ⟨ht, by omega⟩
  | vector x y _ | index x y _ _ | arithmetic _ x y _ | relational _ x y _ | logical _ x y _ =>
    simp only [Expr.textless, Bool.and_eq_true] at ht
    simp only [Expr.vector.sizeOf_spec, Expr.index.sizeOf_spec, Expr.arithmetic.sizeOf_spec,
      Expr.relational.sizeOf_spec, Expr.logical.sizeOf_spec] at hs
    exact ⟨⟨ht.1, by omega⟩, ht.2, by omega⟩
  | call f es _ =>
    simp only [Expr.textless, Bool.and_eq_true] at ht
    simp only [Expr.call.sizeOf_spec] at hs
    exact ⟨⟨ht.1, by omega⟩, each ht.2 (by omega)⟩

theorem Stmt.partsIn_straight {size : Nat} (hb : size ≤ bound) {inLoop : Bool} {st : Stmt}
    (h : (Nodes.straight (size + 1)).stmt inLoop st) :
    st.PartsIn (.straight bound) (.straight size) inLoop := by
  obtain ⟨hs, hc, hsize⟩ := h
  have all {inLoop : Bool} {body : List Stmt} (hs : Stmt.straightAll body = true)
      (hc : Stmt.closedAll inLoop body = true) (hsize : sizeOf body ≤ size) :
      (Nodes.straight size).all inLoop body := fun st hst =>
    ⟨Stmt.straightAll_iff.1 hs st hst, Stmt.closedAll_iff.1 hc st hst,
      Nat.le_trans (Nat.le_of_lt (List.sizeOf_lt_of_mem hst)) hsize⟩
  cases st with
  | nop _ | global _ _ | function _ | classDef _ _ _ _ _ => trivial
  | expression e =>
    rw [Stmt.straight] at hs
    simp only [Stmt.expression.sizeOf_spec] at hsize
    exact ⟨hs, by omega⟩
  | assign _ _ _ | update _ _ _ _ =>
    simp only [Stmt.straight, Bool.and_eq_true] at hs
    simp only [Stmt.assign.sizeOf_spec, Stmt.update.sizeOf_spec] at hsize
    exact ⟨⟨hs.1, by omega⟩, hs.2, by omega⟩
  | realize _ body _ | block body _ =>
    rw [Stmt.straight] at hs
    rw [Stmt.closed] at hc
    simp only [Stmt.realize.sizeOf_spec, Stmt.block.sizeOf_spec] at hsize
    exact ⟨Fragment.declaresAll_straight hs hc (by omega), all hs hc (by omega)⟩
  | «include» _ body _ =>
    rw [Stmt.straight] at hs
    rw [Stmt.closed] at hc
    simp only [Stmt.include.sizeOf_spec] at hsize
    exact all hs hc (by omega)
  | branch condition positive negative _ =>
    simp only [Stmt.straight, Bool.and_eq_true] at hs
    simp only [Stmt.closed, Bool.and_eq_true] at hc
    simp only [Stmt.branch.sizeOf_spec] at hsize
    refine ⟨⟨hs.1.1, by omega⟩, ⟨hs.1.2, hc.1, by omega⟩, ?_⟩
    rintro st rfl
    simp only [Option.some.sizeOf_spec] at hsize
    exact ⟨hs.2, hc.2, by omega⟩
  | loop _ _ | whileLoop _ _ _ | doWhile _ _ _ | forLoop _ _ _ _ _ => simp [Stmt.straight] at hs
  | «break» _ | «continue» _ =>
    rw [Stmt.closed] at hc
    exact .inr hc
  | «return» value _ =>
    rw [Stmt.straight] at hs
    rintro e rfl
    simp only [Stmt.return.sizeOf_spec, Option.some.sizeOf_spec] at hsize
    exact ⟨hs, by omega⟩

end

end CellScript
