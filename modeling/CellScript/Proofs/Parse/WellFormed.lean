import Mathlib
import CellScript.Proofs.Parse.Formed

/-!
# What accepted trees are like

What the rules of the single nodes come to for everything that stands in a parsed script, at any
depth, its included files among it.

* `Script.Has`, `Script.Uses`: the statements and the expressions of a script;
* `Script.WellFormed`: what a run may rely on;
* `accepted_trees_well_formed`: every parsed script is so.
-/

namespace CellScript

/-! ## Everything inside of a script -/

/-- The expression is one of the given ones and used in the given way, or stands inside of one of
them and is used so there. -/
inductive Expr.Among (use : Use) (e : Expr) : List (Use × Expr) → Prop
  | here {parts : List (Use × Expr)} : (use, e) ∈ parts → Among use e parts
  | inside {parts : List (Use × Expr)} {part : Use × Expr} : part ∈ parts →
    Among use e part.2.parts → Among use e parts

/-- The statement stands in the script. -/
def Script.Has (script : Script) (st : Stmt) : Prop := ∃ inLoop, st.At inLoop false script.statements

/-- The expression stands in the script and is used in the given way there. -/
def Script.Uses (script : Script) (use : Use) (e : Expr) : Prop :=
  ∃ st, script.Has st ∧ e.Among use st.parts

/-- The functions that a statement defines. -/
def Stmt.functions : Stmt → List (FunctionDef Stmt)
  | .function f => [f]
  | .classDef _ _ methods _ _ => methods
  | _ => []

/-- Whether an expression is a name, a member access or an index access. -/
def Expr.isPlace : Expr → Bool
  | .name _ _ _ | .member _ _ _ _ | .index _ _ _ _ => true
  | _ => false

/-- What an expression increments or decrements. -/
def Expr.incremented? : Expr → Option Expr
  | .preIncrement e _ _ | .postIncrement e _ _ => some e
  | _ => none

/-- What a statement assigns to. -/
def Stmt.target? : Stmt → Option Expr
  | .assign target _ _ | .update _ target _ _ => some target
  | _ => none

/-- Whether a statement is a `break` or a `continue`. -/
def Stmt.isJump : Stmt → Bool
  | .break _ | .continue _ => true
  | _ => false

/-- A script whose tree a run can rely on, at any depth of it. -/
structure Script.WellFormed (script : Script) : Prop where
  /-- Jumps stand in loop bodies of the same function, realization and file. -/
  jumps : ∀ (st : Stmt) (inLoop : Bool), st.At inLoop false script.statements → st.isJump = true →
    inLoop = true
  /-- What is assigned to is a place. -/
  targets : ∀ st, script.Has st → ∀ target ∈ st.target?, target.isPlace = true
  /-- What is incremented is a place. -/
  increments : ∀ use e, script.Uses use e → ∀ operand ∈ e.incremented?, operand.isPlace = true
  /-- The parameters of a function have different names. -/
  parameters : ∀ st, script.Has st → ∀ f ∈ st.functions, f.parameters.Nodup
  /-- The methods of a class or instant have different names. -/
  methods : ∀ st, script.Has st → (st.functions.map (·.name)).Nodup
  /-- A color has one, three or four components. -/
  colors : ∀ use components line, script.Uses use (.color components line) →
    components.length = 1 ∨ components.length = 3 ∨ components.length = 4
  /-- What stands as an operand is read and not made. -/
  operands : ∀ e, script.Uses .operand e → e.isLocation = false

/-! ## From the rules -/

theorem Expr.Formed.among {use : Use} {e : Expr} {parts : List (Use × Expr)}
    (h : e.Among use parts) : (∀ part ∈ parts, part.2.Formed part.1) → e.Formed use := by
  induction h with
  | here h => exact fun hparts => hparts _ h
  | inside h _ ih => exact fun hparts => ih fun part hpart => (hparts _ h).part hpart

theorem Expr.isPlace_of_isLocation {e : Expr} (h : e.isLocation = true) : e.isPlace = true := by
  cases e <;> first | rfl | cases h

/-- The rules of the nodes make a whole script well formed. -/
theorem Script.wellFormed_of_formed {script : Script}
    (h : ∀ st ∈ script.statements, st.Formed false) : script.WellFormed := by
  have statement {st : Stmt} (hst : script.Has st) : ∃ b, st.Formed b := by
    obtain ⟨b, hat⟩ := hst
    exact ⟨b, .among hat h⟩
  have expression {use : Use} {e : Expr} (he : script.Uses use e) : e.Formed use := by
    obtain ⟨st, hst, hamong⟩ := he
    obtain ⟨b, hformed⟩ := statement hst
    exact .among hamong fun part hpart => hformed.part hpart
  refine ⟨fun st inLoop hat hjump => ?_, fun st hst target htarget => ?_,
    fun use e he operand hoperand => ?_, fun st hst f hf => ?_, fun st hst => ?_,
    fun use cs l he => (expression he).sound, fun e he => (expression he).isLocation_eq_false⟩
  · have sound := (Stmt.Formed.among hat h).sound
    cases st with
    | «break» | «continue» => exact sound
    | _ => cases hjump
  · obtain ⟨b, hformed⟩ := statement hst
    have sound := hformed.sound
    cases st with
    | assign | update =>
      cases htarget
      exact Expr.isPlace_of_isLocation sound
    | _ => cases htarget
  · have sound := (expression he).sound
    cases e with
    | preIncrement | postIncrement =>
      cases hoperand
      exact Expr.isPlace_of_isLocation sound
    | _ => cases hoperand
  · obtain ⟨b, hformed⟩ := statement hst
    have sound := hformed.sound
    cases st with
    | function g =>
      cases List.mem_singleton.1 hf
      exact sound
    | classDef => exact sound.2 f hf
    | _ => cases hf
  · obtain ⟨b, hformed⟩ := statement hst
    have sound := hformed.sound
    cases st with
    | classDef => exact sound.1
    | _ => simp [Stmt.functions]

/-- Every accepted tree is well formed. In all of it, jumps stand in loop bodies of the same
function, realization and file, assignments and increments act on places, parameters and methods
have different names, colors have one, three or four components, and what stands as an operand is
read and not made. -/
theorem accepted_trees_well_formed {script : Script} (h : script.Parsed) : script.WellFormed :=
  Script.wellFormed_of_formed h.formed

/-- `function f(p, q) { while (p) { if (|1, 2, 3| == p.x) break; p[q]++; } }` -/
def loopInFunction : Script :=
  ⟨[.function ⟨"f", ["p", "q"], [.whileLoop (.name "p" .operand 1) (.block [
      .branch (.relational .equal (.color [.integer 1 1, .integer 2 1, .integer 3 1] 1)
        (.member (.name "p" .operand 1) "x" .operand 1) 1) (.break 1) none 1,
      .expression (.postIncrement (.index (.name "p" .operand 1) (.name "q" .operand 1) .location 1)
        .up 1)] 1) 1], 1, ⟨0, 0⟩, 1⟩]⟩

theorem parsed_loopInFunction : loopInFunction.Parsed :=
  .inl ⟨⟨⟨[], "/"⟩, [], []⟩, 0, none,
    "function f(p, q) \x7b while (p) \x7b if (|1, 2, 3| == p.x) break; p[q]++; \x7d \x7d", by cbv⟩

theorem accepted_trees_well_formed_nested : loopInFunction.Parsed ∧ loopInFunction.WellFormed :=
  ⟨parsed_loopInFunction, accepted_trees_well_formed parsed_loopInFunction⟩

end CellScript
