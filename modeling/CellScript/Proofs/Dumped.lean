import CellScript.Syntax.Agreement
import CellScript.Syntax.Dump
import CellScript.Proofs.Depth.Straight
import CellScript.Proofs.Parse.Formed
import CellScript.Proofs.Parse.Positions

/-!
# A dump loses nothing

A tree is handed out as plain data (`Dump.plain`): records with the kind, the line and the fields of
a node, lists, and simple values. Records are equal when they have equal values under the same
names, in whatever order.

* `Plain.same`: equality of plain data;
* `NodeKind.label_injective`: no two kinds of nodes share a name;
* `Expr.same_dump`, `Stmt.same_dump`: dumps are equal exactly if the trees agree;
* `Expr.Within.agrees_iff`, `Stmt.Within.agrees_iff`: trees whose reals have no sign agree exactly
  if their dumps are the same data;
* `Script.dump_faithful`: both, for scripts that were parsed.
-/

namespace CellScript

/-! ## Plain data -/

/-- Data that can be handed out: records of named entries, lists, and simple values. -/
inductive Plain
  | record (entries : List (String × Plain))
  | list (entries : List Plain)
  | text (s : String)
  | integer (n : Int)
  | real (x : Float)
  | flag (b : Bool)
  | absent

namespace Plain

/-- The number that a value is taken for beside numbers of another kind; flags are one or nought. -/
def number? : Plain → Option Number
  | integer n => some (.whole n)
  | real x => some (.real x)
  | flag b => some (.whole (if b then 1 else 0))
  | _ => none

mutual

/-- Equality of plain data. Records have as many entries, and equal ones under each name. -/
@[simp]
def same : Plain → Plain → Bool
  | record fs, record gs => fs.length == gs.length && sameEntries fs gs
  | list xs, list ys => sameList xs ys
  | text s, text t => s == t
  | integer m, integer n => m == n
  | real x, real y => x == y
  | flag b, flag c => b == c
  | absent, absent => true
  | x, y =>
    match x.number?, y.number? with
    | some m, some n => m.equal n
    | _, _ => false

/-- Whether every entry has an equal one of its name among others. -/
@[simp]
def sameEntries : List (String × Plain) → List (String × Plain) → Bool
  | [], _ => true
  | (name, x) :: fs, gs =>
    (match gs.lookup name with
      | some y => x.same y
      | none => false) && sameEntries fs gs

/-- Whether two lists have equal entries. -/
@[simp]
def sameList : List Plain → List Plain → Bool
  | [], [] => true
  | x :: xs, y :: ys => x.same y && sameList xs ys
  | _, _ => false

end

end Plain

namespace Dump

mutual

/-- Labelled data as plain data: a node is a record of its kind, its line and its fields, and an
operator is the way that it is written. -/
@[simp]
def plain : Dump → Plain
  | node kind line fields =>
    .record (("kind", .text kind.label) :: ("line", .integer line) :: plainFields fields)
  | list entries => .list (plainList entries)
  | operator _ _ symbol => .text symbol
  | text s => .text s
  | integer n => .integer n
  | real x => .real x
  | flag b => .flag b
  | count n => .integer n
  | absent => .absent

/-- The entries of a list as plain data. -/
@[simp]
def plainList : List Dump → List Plain
  | [] => []
  | d :: ds => d.plain :: plainList ds

/-- Fields as plain data. -/
@[simp]
def plainFields : List (String × Dump) → List (String × Plain)
  | [] => []
  | (name, d) :: fs => (name, d.plain) :: plainFields fs

end

end Dump

/-! ## Kinds -/

/-- No two kinds share a name. -/
theorem NodeKind.label_injective : Function.Injective label := by
  have listed : ∀ k : NodeKind, k ∈ all := by
    intro k
    cases k <;> decide
  have distinct : (all.map label).Nodup := by decide +kernel
  intro j k h
  exact List.inj_on_of_nodup_map distinct (listed j) (listed k) h

/-- The kind of an expression. -/
def Expr.kind : Expr → NodeKind
  | .integer _ _ => .integer
  | .real _ _ => .real
  | .string _ _ => .string
  | .boolean _ _ => .boolean
  | .undefined _ => .undefined
  | .color _ _ => .color
  | .vector _ _ _ => .vector
  | .list _ _ => .list
  | .name _ _ _ => .name
  | .member _ _ _ _ => .member
  | .index _ _ _ _ => .index
  | .call _ _ _ => .call
  | .new _ _ _ => .new
  | .negate _ _ => .negate
  | .not _ _ => .not
  | .preIncrement _ _ _ => .preIncrement
  | .postIncrement _ _ _ => .postIncrement
  | .arithmetic _ _ _ _ => .arithmetic
  | .relational _ _ _ _ => .relational
  | .logical _ _ _ _ => .logical

theorem Expr.dump_kind (e : Expr) : ∃ fields, e.dump = .node e.kind e.line fields := by
  cases e <;> exact ⟨_, rfl⟩

/-- Dumps of different kinds are not equal. -/
theorem Dump.same_of_kind_ne {j k : NodeKind} (h : j ≠ k) (l m : Nat)
    (fs gs : List (String × Dump)) :
    (Dump.node j l fs).plain.same (Dump.node k m gs).plain = false := by
  have hlabel : j.label ≠ k.label := fun heq => h (NodeKind.label_injective heq)
  simp [plain, Plain.same, Plain.sameEntries, hlabel]

theorem Dump.same_absent (e : Expr) : e.dump.plain.same .absent = false := by
  obtain ⟨fs, h⟩ := e.dump_kind
  rw [h]
  simp [plain, Plain.same, Plain.number?]

theorem Expr.sizeOf_part {e : Expr} {part : Use × Expr} (h : part ∈ e.parts) :
    sizeOf part.2 < sizeOf e := by
  have listed {es : List Expr} : ∀ e ∈ es, sizeOf e < sizeOf es := fun e he =>
    List.sizeOf_lt_of_mem he
  cases e with
  | color es l | list es l | new _ es l =>
    obtain ⟨e, he, rfl⟩ := List.mem_map.1 h
    have hlt := listed e he
    simp only [color.sizeOf_spec, list.sizeOf_spec, new.sizeOf_spec]
    omega
  | call f es l =>
    rcases List.mem_cons.1 h with rfl | h
    · simp only [call.sizeOf_spec]
      omega
    · obtain ⟨e, he, rfl⟩ := List.mem_map.1 h
      have hlt := listed e he
      simp only [call.sizeOf_spec]
      omega
  | integer | real | string | boolean | undefined | name => cases h
  | _ =>
    simp only [parts, List.mem_cons, List.not_mem_nil, or_false] at h
    rcases h with rfl | rfl <;> simp <;> omega

theorem Stmt.sizeOf_inner {st : Stmt} {b : Bool} {s : Bool × Stmt} (h : s ∈ st.inner b) :
    sizeOf s.2 < sizeOf st := by
  have listed {c : Bool} {ss : List Stmt} {s : Bool × Stmt} (h : s ∈ ss.map fun s => (c, s)) :
      sizeOf s.2 < sizeOf ss := by
    obtain ⟨s, hs, rfl⟩ := List.mem_map.1 h
    exact List.sizeOf_lt_of_mem hs
  cases st with
  | realize | «include» | block =>
    have hlt := listed h
    simp
    omega
  | branch c s o l =>
    cases o <;> simp at h <;> grind [Stmt.branch.sizeOf_spec, Option.some.sizeOf_spec]
  | loop | whileLoop | doWhile | forLoop =>
    simp at h
    grind [Stmt.loop.sizeOf_spec, Stmt.whileLoop.sizeOf_spec, Stmt.doWhile.sizeOf_spec,
      Stmt.forLoop.sizeOf_spec]
  | function f =>
    have hlt := listed h
    have hbody := f.sizeOf_body_lt
    simp
    omega
  | classDef i n fs id l =>
    obtain ⟨f, hf, h⟩ := List.mem_flatMap.1 h
    have hlt := listed h
    have hbody := f.sizeOf_body_lt
    have hmember := List.sizeOf_lt_of_mem hf
    simp
    omega
  | _ => cases h

theorem Expr.induction_parts {motive : Expr → Prop}
    (node : ∀ e : Expr, (∀ part ∈ e.parts, motive part.2) → motive e) (e : Expr) : motive e :=
  node e fun part _ => Expr.induction_parts node part.2
termination_by sizeOf e
decreasing_by exact Expr.sizeOf_part ‹_›

theorem Stmt.induction_inner {motive : Stmt → Prop}
    (node : ∀ st : Stmt, (∀ s ∈ st.inner false, motive s.2) → motive st) (st : Stmt) : motive st :=
  node st fun s _ => Stmt.induction_inner node s.2
termination_by sizeOf st
decreasing_by exact Stmt.sizeOf_inner ‹_›

/-! ## Lists -/

section

variable {α β : Type} {f : α → β} {p : β → β → Bool} {q : α → α → Bool} {as bs : List α}

/-- Images of lists are compared as the lists are, if entries are. -/
theorem isEqv_map (h : ∀ a ∈ as, ∀ b, p (f a) (f b) = q a b) (bs : List α) :
    (as.map f).isEqv (bs.map f) p = as.isEqv bs q := by
  induction as generalizing bs with
  | nil => cases bs <;> rfl
  | cons a as ih =>
    cases bs with
    | nil => rfl
    | cons b bs =>
      simp only [List.map_cons, List.isEqv, h a List.mem_cons_self,
        ih fun a ha => h a (List.mem_cons_of_mem _ ha)]

/-- Lists are equal by a comparison exactly if their images are the same, if entries are so. -/
theorem isEqv_iff_map_eq (h : ∀ a ∈ as, ∀ b ∈ bs, q a b = true ↔ f a = f b) :
    as.isEqv bs q = true ↔ as.map f = bs.map f := by
  induction as generalizing bs with
  | nil => cases bs <;> simp [List.isEqv]
  | cons a as ih =>
    cases bs with
    | nil => simp [List.isEqv]
    | cons b bs =>
      rw [List.forall_mem_cons] at h
      simp only [List.isEqv, List.map_cons, List.cons.injEq, Bool.and_eq_true,
        h.1 b List.mem_cons_self, ih fun a ha b hb => h.2 a ha b (List.mem_cons_of_mem _ hb)]

end

/-! ## Lists in dumps -/

namespace Plain

@[simp]
theorem sameList_eq (xs ys : List Plain) : sameList xs ys = xs.isEqv ys same := by
  induction xs generalizing ys with
  | nil => cases ys <;> rfl
  | cons x xs ih => cases ys <;> simp [List.isEqv, ih]

end Plain

@[simp]
theorem Dump.plainList_eq (ds : List Dump) : plainList ds = ds.map plain := by
  induction ds with
  | nil => rfl
  | cons d ds ih => simp [ih]

@[simp]
theorem Expr.dumpList_eq (es : List Expr) : dumpList es = es.map dump := by
  induction es with
  | nil => rfl
  | cons e es ih => simp [dumpList, ih]

@[simp]
theorem Expr.agreesList_eq (as bs : List Expr) : agreesList as bs = as.isEqv bs agrees := by
  induction as generalizing bs with
  | nil => cases bs <;> rfl
  | cons a as ih => cases bs <;> simp [agreesList, List.isEqv, ih]

@[simp]
theorem Stmt.dumpList_eq (ss : List Stmt) : dumpList ss = ss.map dump := by
  induction ss with
  | nil => rfl
  | cons s ss ih => simp [dumpList, ih]

@[simp]
theorem Stmt.agreesList_eq (ss rs : List Stmt) : agreesList ss rs = ss.isEqv rs agrees := by
  induction ss generalizing rs with
  | nil => cases rs <;> simp [agreesList, List.isEqv]
  | cons s ss ih => cases rs <;> simp [agreesList, List.isEqv, ih]

@[simp]
theorem FunctionDef.dumpList_eq (fs : List (FunctionDef Stmt)) : dumpList fs = fs.map dump := by
  induction fs with
  | nil => rfl
  | cons f fs ih => simp [dumpList, ih]

@[simp]
theorem FunctionDef.agreesList_eq (fs gs : List (FunctionDef Stmt)) :
    agreesList fs gs = fs.isEqv gs agrees := by
  induction fs generalizing gs with
  | nil => cases gs <;> simp [agreesList, List.isEqv]
  | cons f fs ih => cases gs <;> simp [agreesList, List.isEqv, ih]

/-! ## Dumps of expressions -/

@[simp]
theorem Plain.same_lines (l m : Nat) : ((l : Int) == (m : Int)) = (l == m) := by
  rw [Bool.eq_iff_iff]
  simp

@[simp]
theorem Direction.delta_beq (d e : Direction) : (d.delta == e.delta) = (d == e) := by
  cases d <;> cases e <;> rfl

@[simp]
theorem ArithmeticOp.same_dump (o p : ArithmeticOp) :
    o.dump.plain.same p.dump.plain = (o == p) := by
  cases o <;> cases p <;> decide

@[simp]
theorem RelationalOp.same_dump (o p : RelationalOp) :
    o.dump.plain.same p.dump.plain = (o == p) := by
  cases o <;> cases p <;> decide

@[simp]
theorem LogicalOp.same_dump (o p : LogicalOp) : o.dump.plain.same p.dump.plain = (o == p) := by
  cases o <;> cases p <;> decide

/-- Expressions of different kinds do not agree. -/
theorem Expr.agrees_of_kind_ne {a b : Expr} (h : a.kind ≠ b.kind) : a.agrees b = false := by
  cases a <;> cases b <;> first | rfl | exact absurd rfl h

/-- Two expressions have equal dumps exactly if they agree. -/
theorem Expr.same_dump (a b : Expr) : a.dump.plain.same b.dump.plain = a.agrees b := by
  -- Nodes of one kind have the same fields in the same order; others differ in their first field.
  induction a using Expr.induction_parts generalizing b with
  | node a ih =>
    by_cases hk : a.kind = b.kind
    · cases a with
      | color es l | list es l | new _ es l =>
        have hes := isEqv_map (p := Plain.same) (f := fun e => e.dump.plain)
          fun e he => ih (.operand, e) (by simpa using he)
        cases b <;> cases hk
        simp [dump, agrees, List.lookup, Bool.and_comm, ← hes, Function.comp_def]
      | call f es l =>
        have hf := ih (.operand, f) (by simp)
        have hes := isEqv_map (p := Plain.same) (f := fun e => e.dump.plain)
          fun e he => ih (.operand, e) (List.mem_cons_of_mem _ (by simpa using he))
        cases b <;> cases hk
        simp [dump, agrees, List.lookup, Bool.and_comm, ← hes, hf, Function.comp_def]
      | _ =>
        simp only [parts, List.forall_mem_cons] at ih
        cases b <;> cases hk
        simp [dump, agrees, List.lookup, Bool.and_comm, Bool.and_assoc, ih]
    · obtain ⟨fs, ha⟩ := a.dump_kind
      obtain ⟨gs, hb⟩ := b.dump_kind
      rw [ha, hb, Dump.same_of_kind_ne hk, Expr.agrees_of_kind_ne hk]

/-! ## Dumps of statements -/

/-- The kind of a statement. -/
def Stmt.kind : Stmt → NodeKind
  | .expression e => e.kind
  | .assign _ _ _ => .assignment
  | .update _ _ _ _ => .compoundAssignment
  | .realize _ _ _ => .realization
  | .nop _ => .nop
  | .include _ _ _ => .include
  | .block _ _ => .block
  | .branch _ _ _ _ => .if
  | .loop _ _ => .loop
  | .whileLoop _ _ _ => .while
  | .doWhile _ _ _ => .doWhile
  | .forLoop _ _ _ _ _ => .for
  | .break _ => .break
  | .continue _ => .continue
  | .return _ _ => .return
  | .global _ _ => .global
  | .function _ => .function
  | .classDef isInstant _ _ _ _ => if isInstant then .instant else .classDef

theorem Stmt.dump_kind (st : Stmt) : ∃ l fields, st.dump = .node st.kind l fields := by
  cases st with
  | expression e =>
    obtain ⟨fs, h⟩ := e.dump_kind
    exact ⟨_, fs, by rw [dump, h, kind]⟩
  | function f => exact ⟨_, _, by rw [dump, FunctionDef.dump, kind]⟩
  | _ => exact ⟨_, _, by rw [dump, kind]⟩

/-- A statement whose kind is that of an expression is one. -/
theorem Stmt.eq_expression_of_kind {st : Stmt} {e : Expr} (h : st.kind = e.kind) :
    ∃ a, st = .expression a := by
  cases st with
  | expression a => exact ⟨a, rfl⟩
  | classDef isInstant => cases isInstant <;> cases e <;> cases h
  | _ => cases e <;> cases h

/-- Two statements of one kind are built in the same way. -/
theorem Stmt.cases_kind {motive : (s t : Stmt) → s.kind = t.kind → Prop}
    (expression : ∀ a b h, motive (.expression a) (.expression b) h)
    (assign : ∀ a b l c d m, motive (.assign a b l) (.assign c d m) rfl)
    (update : ∀ o a b l p c d m, motive (.update o a b l) (.update p c d m) rfl)
    (realize : ∀ n ss l k rs m, motive (.realize n ss l) (.realize k rs m) rfl)
    (nop : ∀ l m, motive (.nop l) (.nop m) rfl)
    («include» : ∀ n ss l k rs m, motive (.include n ss l) (.include k rs m) rfl)
    (block : ∀ ss l rs m, motive (.block ss l) (.block rs m) rfl)
    (branch : ∀ a s o l b r p m, motive (.branch a s o l) (.branch b r p m) rfl)
    (loop : ∀ s l r m, motive (.loop s l) (.loop r m) rfl)
    (whileLoop : ∀ a s l b r m, motive (.whileLoop a s l) (.whileLoop b r m) rfl)
    (doWhile : ∀ a s l b r m, motive (.doWhile a s l) (.doWhile b r m) rfl)
    (forLoop : ∀ i a p s l j b q r m, motive (.forLoop i a p s l) (.forLoop j b q r m) rfl)
    («break» : ∀ l m, motive (.break l) (.break m) rfl)
    («continue» : ∀ l m, motive (.continue l) (.continue m) rfl)
    («return» : ∀ o l p m, motive (.return o l) (.return p m) rfl)
    (global : ∀ n l k m, motive (.global n l) (.global k m) rfl)
    (function : ∀ f g, motive (.function f) (.function g) rfl)
    (classDef : ∀ i n fs d l k gs e m, motive (.classDef i n fs d l) (.classDef i k gs e m) rfl)
    (s t : Stmt) (h : s.kind = t.kind) : motive s t h := by
  cases s with
  | expression a =>
    obtain ⟨b, rfl⟩ := eq_expression_of_kind h.symm
    exact expression a b h
  | classDef i n fs d l =>
    cases t with
    | expression b => cases i <;> cases b <;> cases h
    | classDef j k gs e m =>
      cases i <;> cases j <;> cases h <;> exact classDef _ _ _ _ _ _ _ _ _
    | _ => cases i <;> cases h
  | _ =>
    cases t with
    | expression b => cases b <;> cases h
    | classDef j => cases j <;> cases h
    | _ =>
      cases h <;> solve_by_elim

/-- Statements of different kinds do not agree. -/
theorem Stmt.agrees_of_kind_ne {s t : Stmt} (h : s.kind ≠ t.kind) : s.agrees t = false := by
  cases s with
  | expression a =>
    cases t with
    | expression b =>
      rw [agrees]
      exact Expr.agrees_of_kind_ne h
    | _ => simp [agrees]
  | classDef i =>
    cases t with
    | classDef j =>
      have hij : i ≠ j := fun hij => h (by rw [hij, kind, kind])
      simp [agrees, hij]
    | _ => simp [agrees]
  | _ => cases t <;> first | exact absurd rfl h | simp only [agrees]

@[simp]
theorem Expr.same_dumpOption (a b : Option Expr) :
    (dumpOption a).plain.same (dumpOption b).plain = agreesOption a b := by
  cases a with
  | none =>
    cases b with
    | none => rfl
    | some b =>
      obtain ⟨fs, h⟩ := b.dump_kind
      simp [Expr.dumpOption, Expr.agreesOption, h, Plain.number?]
  | some a =>
    cases b with
    | none => simp [Expr.dumpOption, Expr.agreesOption, Dump.same_absent]
    | some b => exact a.same_dump b

/-- Names have equal dumps exactly if they are the same. -/
@[simp]
theorem Plain.same_texts (ps qs : List String) :
    (ps.map text).isEqv (qs.map text) same = (ps == qs) := by
  induction ps generalizing qs with
  | nil => cases qs <;> rfl
  | cons p ps ih => cases qs <;> simp [List.isEqv, ih]

theorem Stmt.same_dumpOption {o : Option Stmt}
    (h : ∀ s ∈ o, ∀ t : Stmt, s.dump.plain.same t.dump.plain = s.agrees t) (o' : Option Stmt) :
    (dumpOption o).plain.same (dumpOption o').plain = agreesOption o o' := by
  cases o with
  | none =>
    cases o' with
    | none => simp [dumpOption, agreesOption]
    | some t =>
      obtain ⟨l, fs, ht⟩ := t.dump_kind
      simp [dumpOption, agreesOption, ht, Plain.number?]
  | some s =>
    cases o' with
    | none =>
      obtain ⟨l, fs, hs⟩ := s.dump_kind
      simp [dumpOption, agreesOption, hs, Plain.number?]
    | some t => simp [dumpOption, agreesOption, h s rfl t]

theorem FunctionDef.same_dump {f : FunctionDef Stmt}
    (h : ∀ s ∈ f.body, ∀ t : Stmt, s.dump.plain.same t.dump.plain = s.agrees t)
    (g : FunctionDef Stmt) : (dump f).plain.same (dump g).plain = agrees f g := by
  have hbody := isEqv_map (p := Plain.same) (f := fun s : Stmt => s.dump.plain) h
  cases f
  cases g
  simp [dump, agrees, List.lookup, Bool.and_comm, Bool.and_assoc,
    Bool.and_left_comm, ← hbody, Function.comp_def]

/-- Two statements have equal dumps exactly if they agree. -/
theorem Stmt.same_dump (s t : Stmt) : s.dump.plain.same t.dump.plain = s.agrees t := by
  induction s using Stmt.induction_inner generalizing t with
  | node s ih =>
    by_cases hk : s.kind = t.kind
    · cases s, t, hk using Stmt.cases_kind with
      | expression a b => simp [dump, agrees, Expr.same_dump]
      | realize _ ss | «include» _ ss | block ss =>
        have hss := isEqv_map (p := Plain.same) (f := fun s => s.dump.plain)
          fun s hs => ih (false, s) (by simpa using hs)
        simp [dump, agrees, List.lookup, Bool.and_comm, ← hss, Function.comp_def]
      | function f g =>
        have hf := FunctionDef.same_dump fun s hs => ih (false, s) (by simpa using hs)
        simp [dump, agrees, hf]
      | classDef i n fs =>
        have hfs := isEqv_map (p := Plain.same) (f := fun f => (FunctionDef.dump f).plain)
          fun f hf => FunctionDef.same_dump
            fun s hs => ih (false, s) (by simpa using ⟨f, hf, hs⟩)
        simp [dump, agrees, List.lookup, Bool.and_comm, ← hfs, Function.comp_def]
      | branch _ positive negative =>
        have hpositive := ih (false, positive) (by simp)
        have hnegative := same_dumpOption fun s hs =>
          ih (false, s) (List.mem_cons_of_mem _ (by simpa using hs))
        simp [dump, agrees, List.lookup, Bool.and_comm, Bool.and_assoc, hpositive, hnegative,
          Expr.same_dump]
      | _ =>
        simp only [inner, List.forall_mem_cons] at ih
        simp [dump, agrees, List.lookup, Bool.and_comm, Bool.and_assoc, Bool.and_left_comm, ih,
          Expr.same_dump]
    · obtain ⟨l, fs, hs⟩ := s.dump_kind
      obtain ⟨m, gs, ht⟩ := t.dump_kind
      rw [hs, ht, Dump.same_of_kind_ne hk, Stmt.agrees_of_kind_ne hk]

/-! ## Identical dumps -/

@[simp]
theorem ArithmeticOp.dump_inj (o p : ArithmeticOp) : o.dump = p.dump ↔ o = p := by
  cases o <;> cases p <;> simp [dump, symbol]

@[simp]
theorem RelationalOp.dump_inj (o p : RelationalOp) : o.dump = p.dump ↔ o = p := by
  cases o <;> cases p <;> simp [dump, symbol]

@[simp]
theorem LogicalOp.dump_inj (o p : LogicalOp) : o.dump = p.dump ↔ o = p := by
  cases o <;> cases p <;> simp [dump, symbol]

@[simp]
theorem Direction.delta_inj (d e : Direction) : d.delta = e.delta ↔ d = e := by
  cases d <;> cases e <;> simp [delta]

section

variable {L M : Nat → Prop} {a b : Expr}

/-- Expressions whose reals have no sign agree exactly if they have the same dump. -/
theorem Expr.Within.agrees_iff (ha : a.Within L) (hb : b.Within M) :
    a.agrees b = true ↔ a.dump = b.dump := by
  induction ha generalizing b with
  | @node a _ real _ ih =>
    have hparts : ∀ part ∈ b.parts, part.2.Within M := fun part hpart => hb.part hpart
    by_cases hk : a.kind = b.kind
    · cases a with
      | real x l =>
        cases b <;> cases hk
        have hx := real x l rfl
        have heq : (x == _) = true ↔ x = _ :=
          ⟨hx.eq_of_beq hb.real, fun h => h ▸ hx.beq_self⟩
        simp [dump, agrees, heq, and_comm]
      | color es l | list es l | new _ es l =>
        have hes (fs : List Expr) (hfs : ∀ e ∈ fs, e.Within M) :
            es.isEqv fs agrees = true ↔ es.map dump = fs.map dump :=
          isEqv_iff_map_eq fun e he f hf => ih (.operand, e) (by simpa using he) (hfs f hf)
        cases b <;> cases hk
        simp [dump, agrees, hes _ (by simpa using hparts), and_comm]
      | call f es l =>
        have hes (fs : List Expr) (hfs : ∀ e ∈ fs, e.Within M) :
            es.isEqv fs agrees = true ↔ es.map dump = fs.map dump :=
          isEqv_iff_map_eq fun e he f hf =>
            ih (.operand, e) (List.mem_cons_of_mem _ (by simpa using he)) (hfs f hf)
        cases b <;> cases hk
        simp only [parts, List.forall_mem_cons] at ih hparts
        simp [dump, agrees, ih.1 hparts.1, hes _ (by simpa using hparts.2), and_comm]
      | _ =>
        cases b <;> cases hk
        simp only [parts, List.forall_mem_cons] at ih hparts
        simp [dump, agrees, and_comm, and_assoc, ih, hparts]
    · have hne : a.dump ≠ b.dump := by
        obtain ⟨fs, ha⟩ := a.dump_kind
        obtain ⟨gs, hb⟩ := b.dump_kind
        simp [ha, hb, hk]
      simp [Expr.agrees_of_kind_ne hk, hne]

theorem Expr.Within.agreesOption_iff {o o' : Option Expr} (h : ∀ e ∈ o, e.Within L)
    (h' : ∀ e ∈ o', e.Within M) : agreesOption o o' = true ↔ dumpOption o = dumpOption o' := by
  cases o with
  | none =>
    cases o' with
    | none => simp [agreesOption]
    | some b =>
      obtain ⟨fs, hb⟩ := b.dump_kind
      simp [agreesOption, dumpOption, hb]
  | some a =>
    cases o' with
    | none =>
      obtain ⟨fs, ha⟩ := a.dump_kind
      simp [agreesOption, dumpOption, ha]
    | some b => exact (h a rfl).agrees_iff (h' b rfl)

end

section

variable {P Q : Option String → Nat → Prop} {s t : Stmt} {file file' : Option String}

theorem Stmt.agreesOption_iff {o o' : Option Stmt}
    (h : ∀ s ∈ o, ∀ t ∈ o', s.agrees t = true ↔ s.dump = t.dump) :
    agreesOption o o' = true ↔ dumpOption o = dumpOption o' := by
  cases o with
  | none =>
    cases o' with
    | none => simp [agreesOption]
    | some t =>
      obtain ⟨l, fs, ht⟩ := t.dump_kind
      simp [agreesOption, dumpOption, ht]
  | some s =>
    cases o' with
    | none =>
      obtain ⟨l, fs, hs⟩ := s.dump_kind
      simp [agreesOption, dumpOption, hs]
    | some t => simpa [agreesOption, dumpOption] using h s rfl t rfl

theorem FunctionDef.agrees_iff {f g : FunctionDef Stmt}
    (h : ∀ s ∈ f.body, ∀ t ∈ g.body, s.agrees t = true ↔ s.dump = t.dump) :
    agrees f g = true ↔ dump f = dump g := by
  have hbody := isEqv_iff_map_eq h
  have htext : Function.Injective Dump.text := fun _ _ h => Dump.text.inj h
  cases f
  cases g
  simp [dump, agrees, hbody, List.map_inj_right htext, and_comm, and_assoc, and_left_comm]

theorem Stmt.Within.agrees_iff (hs : s.Within P file) (ht : t.Within Q file') :
    s.agrees t = true ↔ s.dump = t.dump := by
  induction hs generalizing t file' with
  | @node file s _ hparts _ ih =>
    have htparts : ∀ part ∈ t.parts, part.2.Within (Q file') := by
      cases ht
      assumption
    have hinner : ∀ r ∈ s.inner false, ∀ r' ∈ t.inner false,
        r.2.agrees r'.2 = true ↔ r.2.dump = r'.2.dump := by
      cases ht with
      | node _ _ htinner => exact fun r hr r' hr' => ih r hr (htinner r' hr')
    by_cases hk : s.kind = t.kind
    · cases s, t, hk using Stmt.cases_kind with
      | expression a b =>
        simpa [dump, agrees] using
          (hparts (.location, a) (by simp)).agrees_iff (htparts (.location, b) (by simp))
      | realize _ ss _ _ rs | «include» _ ss _ _ rs | block ss _ rs =>
        have hss : ss.isEqv rs agrees = true ↔ ss.map dump = rs.map dump :=
          isEqv_iff_map_eq fun s hs r hr =>
            hinner (false, s) (by simpa using hs) (false, r) (by simpa using hr)
        simp [dump, agrees, hss, and_comm]
      | function f g =>
        rw [agrees, dump, dump]
        exact FunctionDef.agrees_iff fun s hs r hr =>
          hinner (false, s) (by simpa using hs) (false, r) (by simpa using hr)
      | classDef i n fs _ _ k gs =>
        have hfs : fs.isEqv gs FunctionDef.agrees = true ↔
            fs.map FunctionDef.dump = gs.map FunctionDef.dump :=
          isEqv_iff_map_eq fun f hf g hg => FunctionDef.agrees_iff fun s hs r hr =>
            hinner (false, s) (by simpa using ⟨f, hf, hs⟩) (false, r) (by simpa using ⟨g, hg, hr⟩)
        simp [dump, agrees, hfs, and_comm]
      | branch a s o _ b r p =>
        have hcondition := (hparts (.operand, a) (by simp)).agrees_iff
          (htparts (.operand, b) (by simp))
        have hpositive := hinner (false, s) (by simp) (false, r) (by simp)
        have hnegative : agreesOption o p = true ↔ dumpOption o = dumpOption p :=
          agreesOption_iff fun s hs r hr =>
            hinner (false, s) (List.mem_cons_of_mem _ (by simpa using hs)) (false, r)
              (List.mem_cons_of_mem _ (by simpa using hr))
        simp [dump, agrees, hcondition, hpositive, hnegative, and_comm, and_assoc]
      | «return» o _ p =>
        have hvalue : Expr.agreesOption o p = true ↔ Expr.dumpOption o = Expr.dumpOption p :=
          Expr.Within.agreesOption_iff (fun e he => hparts (.operand, e) (by simpa using he))
            fun e he => htparts (.operand, e) (by simpa using he)
        simp [dump, agrees, hvalue, and_comm]
      | assign a b _ c d | update _ a b _ _ c d =>
        have ha := (hparts (.location, a) (by simp)).agrees_iff (htparts (.location, c) (by simp))
        have hb := (hparts (.operand, b) (by simp)).agrees_iff (htparts (.operand, d) (by simp))
        simp [dump, agrees, ha, hb, and_comm, and_assoc]
      | whileLoop a s _ b r | doWhile a s _ b r =>
        have ha := (hparts (.operand, a) (by simp)).agrees_iff (htparts (.operand, b) (by simp))
        have hs := hinner (true, s) (by simp) (true, r) (by simp)
        simp [dump, agrees, ha, hs, and_comm]
      | loop s _ r =>
        have hs := hinner (true, s) (by simp) (true, r) (by simp)
        simp [dump, agrees, hs, and_comm]
      | forLoop i a p s _ j b q r =>
        have ha := (hparts (.operand, a) (by simp)).agrees_iff (htparts (.operand, b) (by simp))
        have hi := hinner (false, i) (by simp) (false, j) (by simp)
        have hp := hinner (false, p) (by simp) (false, q) (by simp)
        have hs := hinner (true, s) (by simp) (true, r) (by simp)
        simp [dump, agrees, ha, hi, hp, hs, and_comm, and_assoc, and_left_comm]
      | nop | «break» | «continue» | global => simp [dump, agrees, and_comm]
    · have hne : s.dump ≠ t.dump := by
        obtain ⟨l, fs, hs⟩ := s.dump_kind
        obtain ⟨m, gs, ht⟩ := t.dump_kind
        simp [hs, ht, hk]
      simp [agrees_of_kind_ne hk, hne]

end

/-! ## Scripts -/

/-- What is in a parsed script is on lines of its files, and its reals have no sign. -/
theorem Script.Parsed.within {script : Script} (h : script.Parsed) :
    ∃ P, ∀ st ∈ script.statements, st.Within P none := by
  rcases h with ⟨_, _, _, _, h⟩ | ⟨sources, unit, path, h⟩
  · exact ⟨_, Parser.within_of_run h⟩
  · unfold parseFile at h
    dsimp only at h
    cases hread : Parser.readText sources (sources.files.absolute path) with
    | ok text =>
      rw [hread] at h
      exact ⟨_, Parser.within_of_run h⟩
    | error f =>
      rw [hread] at h
      cases h

/-- A dump loses nothing. Two parsed scripts have equal dumps exactly if they agree, and then the
dumps are even the same data. -/
theorem Script.dump_faithful {s t : Script} (hs : s.Parsed) (ht : t.Parsed) :
    (s.dump.plain.same t.dump.plain = true ↔ s.agrees t = true) ∧
      (s.dump.plain = t.dump.plain ↔ s.agrees t = true) := by
  have same_iff (s t : Script) : s.dump.plain.same t.dump.plain = s.agrees t := by
    have hss := isEqv_map (p := Plain.same) (f := fun s : Stmt => s.dump.plain)
      fun s' (_ : s' ∈ s.statements) => s'.same_dump
    simp [dump, agrees, List.lookup, ← hss, Function.comp_def]
  have agrees_iff {s t : Script} (hs : s.Parsed) (ht : t.Parsed) :
      s.agrees t = true ↔ s.dump = t.dump := by
    obtain ⟨P, hs⟩ := hs.within
    obtain ⟨Q, ht⟩ := ht.within
    have hss := isEqv_iff_map_eq fun s' hs' t' ht' => (hs s' hs').agrees_iff (ht t' ht')
    simp [dump, agrees, hss]
  refine ⟨by rw [same_iff], fun h => ?_, fun h => ?_⟩
  · rw [← same_iff, ← h, same_iff]
    exact (agrees_iff hs hs).2 rfl
  · rw [(agrees_iff hs ht).1 h]

set_option maxRecDepth 2000 in
/-- The same assignment on the next line has another dump. -/
theorem Script.dump_faithful_next_line :
    let s : Script := ⟨[.assign (.name "x" .location 1) (.integer 16 1) 1]⟩
    let t : Script := ⟨[.assign (.name "x" .location 2) (.integer 16 2) 2]⟩
    s.Parsed ∧ t.Parsed ∧ s.dump.plain.same t.dump.plain = false ∧
      s.dump.plain ≠ t.dump.plain := by
  intro s t
  have hs : s.Parsed := .inl ⟨⟨⟨[], "/"⟩, [], []⟩, 0, none, "x = 16;", by cbv⟩
  have ht : t.Parsed := .inl ⟨⟨⟨[], "/"⟩, [], []⟩, 0, none, "\nx = 16;", by cbv⟩
  have differ : s.agrees t = false := by
    simp [s, t, agrees, List.isEqv, Stmt.agrees, Expr.agrees]
  have faithful := dump_faithful hs ht
  rw [differ] at faithful
  exact ⟨hs, ht, Bool.eq_false_iff.2 fun h => Bool.false_ne_true (faithful.1.1 h),
    fun h => Bool.false_ne_true (faithful.2.1 h)⟩

end CellScript
