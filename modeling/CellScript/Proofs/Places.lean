import CellScript.Proofs.Closed

/-!
# Where locations stand

A place is a location where it is made if it is missing: in a statement that is nothing but the
place, as the target of an assignment or an update, and where it is incremented or decremented.
Everywhere else it is an operand.

* `Expr.placed`, `Stmt.placed`: all places of a tree are used as they are where they stand;
* `Stmt.Visits`: a statement that does nothing but read or change a place;
* `Stmt.Visits.placed`: there the place is a location.
-/

namespace CellScript

/-! ## Trees -/

mutual

/-- Whether the places of an expression are used as they are where they stand, in the given way at
the expression itself: what is incremented is a location, and all other parts are operands. -/
def Expr.placed (use : Use) : Expr → Bool
  | .name _ u _ => u == use
  | .member target _ u _ => u == use && target.placed .operand
  | .index target position u _ => u == use && target.placed .operand && position.placed .operand
  | .preIncrement e _ _ => e.isLocation && e.placed .location
  | .postIncrement e _ _ => e.isLocation && e.placed .location
  | .color es _ => Expr.operands es
  | .vector x y _ => x.placed .operand && y.placed .operand
  | .list es _ => Expr.operands es
  | .call function arguments _ => function.placed .operand && Expr.operands arguments
  | .new _ arguments _ => Expr.operands arguments
  | .negate e _ => e.placed .operand
  | .not e _ => e.placed .operand
  | .arithmetic _ lhs rhs _ => lhs.placed .operand && rhs.placed .operand
  | .relational _ lhs rhs _ => lhs.placed .operand && rhs.placed .operand
  | .logical _ lhs rhs _ => lhs.placed .operand && rhs.placed .operand
  | _ => true

/-- Whether expressions are operands, and so are their parts where these have to be. -/
def Expr.operands : List Expr → Bool
  | [] => true
  | e :: es => e.placed .operand && Expr.operands es

end

mutual

/-- Whether the places of a statement are used as they are where they stand. -/
def Stmt.placed : Stmt → Bool
  | .expression e => e.placed .location
  | .assign target value _ =>
    target.isLocation && target.placed .location && value.placed .operand
  | .update _ target value _ =>
    target.isLocation && target.placed .location && value.placed .operand
  | .realize _ body _ => Stmt.placedAll body
  | .include _ body _ => Stmt.placedAll body
  | .block body _ => Stmt.placedAll body
  | .branch condition positive negative _ =>
    condition.placed .operand && positive.placed && Stmt.placedOption negative
  | .loop body _ => body.placed
  | .whileLoop condition body _ => condition.placed .operand && body.placed
  | .doWhile condition body _ => condition.placed .operand && body.placed
  | .forLoop init condition step body _ =>
    init.placed && condition.placed .operand && step.placed && body.placed
  | .return (some e) _ => e.placed .operand
  | .function f => FunctionDef.placed f
  | .classDef _ _ methods _ _ => FunctionDef.placedAll methods
  | _ => true

/-- Whether the places of all statements are used as they are where they stand. -/
def Stmt.placedAll : List Stmt → Bool
  | [] => true
  | st :: ss => st.placed && Stmt.placedAll ss

/-- Whether the places of a statement, if there is one, are used as they are where they stand. -/
def Stmt.placedOption : Option Stmt → Bool
  | none => true
  | some st => st.placed

/-- Whether the places in the body of a function are used as they are where they stand. -/
def FunctionDef.placed : FunctionDef Stmt → Bool
  | ⟨_, _, body, _, _, _⟩ => Stmt.placedAll body

/-- Whether the places in the bodies of all functions are used as they are where they stand. -/
def FunctionDef.placedAll : List (FunctionDef Stmt) → Bool
  | [] => true
  | f :: fs => FunctionDef.placed f && FunctionDef.placedAll fs

end

theorem Expr.operands_iff {es : List Expr} :
    Expr.operands es = true ↔ ∀ e ∈ es, e.placed .operand = true := by
  induction es with
  | nil => simp [operands]
  | cons e es ih => simp [operands, ih]

theorem FunctionDef.placed_eq (f : FunctionDef Stmt) : f.placed = Stmt.placedAll f.body := by
  cases f
  rfl

theorem FunctionDef.placedAll_iff {fs : List (FunctionDef Stmt)} :
    FunctionDef.placedAll fs = true ↔ ∀ f ∈ fs, Stmt.placedAll f.body = true := by
  induction fs with
  | nil => simp [FunctionDef.placedAll]
  | cons f fs ih => simp [FunctionDef.placedAll, FunctionDef.placed_eq, ih]

theorem Stmt.placedAll_iff {ss : List Stmt} :
    Stmt.placedAll ss = true ↔ ∀ s ∈ ss, s.placed = true := by
  induction ss with
  | nil => simp [Stmt.placedAll]
  | cons s ss ih => simp [Stmt.placedAll, ih]

/-- What holds of the places of statements holds of those of every statement inside them. -/
theorem Stmt.Among.placed {st : Stmt} {ss : List Stmt} (h : st.Among ss)
    (hs : Stmt.placedAll ss = true) : st.placed = true := by
  induction h with
  | here =>
    simp only [Stmt.placedAll, Bool.and_eq_true] at hs
    exact hs.1
  | later _ ih =>
    simp only [Stmt.placedAll, Bool.and_eq_true] at hs
    exact ih hs.2
  | realize _ ih | «include» _ ih | block _ ih =>
    simp only [Stmt.placedAll, Stmt.placed, Bool.and_eq_true] at hs
    exact ih hs.1
  | positive _ ih =>
    simp only [Stmt.placedAll, Stmt.placed, Bool.and_eq_true] at hs
    exact ih (by simp [Stmt.placedAll, hs.1.1.2])
  | negative _ ih =>
    simp only [Stmt.placedAll, Stmt.placed, Stmt.placedOption, Bool.and_eq_true] at hs
    exact ih (by simp [Stmt.placedAll, hs.1.2])
  | loop _ ih =>
    simp only [Stmt.placedAll, Stmt.placed, Bool.and_eq_true] at hs
    exact ih (by simp [Stmt.placedAll, hs.1])
  | whileLoop _ ih | doWhile _ ih =>
    simp only [Stmt.placedAll, Stmt.placed, Bool.and_eq_true] at hs
    exact ih (by simp [Stmt.placedAll, hs.1.2])
  | forLoop _ ih =>
    simp only [Stmt.placedAll, Stmt.placed, Bool.and_eq_true] at hs
    obtain ⟨⟨⟨init, -⟩, step⟩, body⟩ := hs.1
    exact ih (by simp [Stmt.placedAll, init, step, body])
  | function _ ih =>
    simp only [Stmt.placedAll, Stmt.placed, FunctionDef.placed_eq, Bool.and_eq_true] at hs
    exact ih hs.1
  | method hf _ ih =>
    simp only [Stmt.placedAll, Stmt.placed, Bool.and_eq_true, FunctionDef.placedAll_iff] at hs
    exact ih (hs.1 _ hf)

/-! ## Statements about one place -/

/-- A statement that is nothing but a place, or an update, an increment or a decrement of one. The
number says how many expressions there are around the place. -/
inductive Stmt.Visits (place : Expr) : Nat → Stmt → Prop
  | bare : Visits place 0 (.expression place)
  | update (op : ArithmeticOp) (value : Expr) (line : Nat) :
    Visits place 0 (.update op place value line)
  | preIncrement (direction : Direction) (line : Nat) :
    Visits place 1 (.expression (.preIncrement place direction line))
  | postIncrement (direction : Direction) (line : Nat) :
    Visits place 1 (.expression (.postIncrement place direction line))

/-- Where a statement is about a place, the place is a location. -/
theorem Stmt.Visits.placed {place : Expr} {depth : Nat} {st : Stmt} (h : st.Visits place depth)
    (hst : st.placed = true) : place.placed .location = true := by
  cases h with
  | bare => simpa only [Stmt.placed] using hst
  | update op value line =>
    simp only [Stmt.placed, Bool.and_eq_true] at hst
    exact hst.1.2
  | preIncrement direction line | postIncrement direction line =>
    simp only [Stmt.placed, Expr.placed, Bool.and_eq_true] at hst
    exact hst.2

end CellScript
