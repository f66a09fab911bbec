import CellScript.Proofs.Congruence.Cells

/-!
# Related programs

Expressions, statements and calls lead back to each other through an `Interp`. This module treats
one layer: if the ways back of two interpreters are related for the parts of a node, then so is what
the interpreters make of the node.

Declarations are made only in scopes that have just been opened, and a logic may know more of the
steps there: `LoopLogic.Fresh` relates steps that begin in such a scope. Nor does a logic have to
be the same within a call and outside of it; calls are therefore left to the users of the layer, and
so are blocks where declarations in a block do not keep the logic.

* `ObjectLogic`: the clauses of a cell logic, those for what encloses other steps but blocks, and
  those for the little that programs do to objects; `NodeLogic`: the same with blocks;
  `ProgramLogic`: the same for any changes of objects;
* `Nodes`: a set of expressions and statements, and `Expr.PartsIn`, `Stmt.PartsIn` say that the
  immediate parts of a node are in it;
* `ObjectLogic.AgreeOn`: two interpreters are related on a set of nodes.
-/

namespace CellScript

/-! ## Declarations -/

namespace Fragment

variable (F : Fragment)

mutual

/-- The functions and types that a statement declares are in the fragment. -/
def declares : Stmt → Prop
  | .function f => F.callable (.script f.parameters f.body f.id)
  | .classDef _ _ methods _ _ => ∀ m ∈ methods, F.callable (.script m.parameters m.body m.id)
  | .include _ body _ => declaresAll body
  | _ => True

/-- The functions and types that statements declare are in the fragment. -/
def declaresAll : List Stmt → Prop
  | [] => True
  | s :: ss => declares s ∧ declaresAll ss

end

variable {F}

theorem type_typeOf {isInstant : Bool} {name : String} {methods : List (FunctionDef Stmt)}
    {id : DefId} (h : ∀ m ∈ methods, F.callable (.script m.parameters m.body m.id)) :
    F.type (Exec.typeOf isInstant name methods id) := by
  refine (F.type_iff _).2 fun m hm => ?_
  obtain ⟨f, hf, rfl⟩ := List.mem_map.1 (Bindings.mem_ofList hm)
  exact h f hf

/-- What declarations are made of. -/
structure Declarations (F : Fragment) (R : Exec Unit → Exec Unit → Prop) : Prop where
  pure : R (pure ()) (pure ())
  bind {x x' y y' : Exec Unit} : R x x' → R y y' → R (x >>= fun _ => y) (x' >>= fun _ => y')
  declareFunction (f : FunctionDef Stmt) : F.callable (.script f.parameters f.body f.id) →
    R (Exec.declareFunction f) (Exec.declareFunction f)
  addType (name : String) (t : ObjectType) (line : Option Nat) : F.type t →
    R (Exec.addType name t line) (Exec.addType name t line)

namespace Declarations

variable {R : Exec Unit → Exec Unit → Prop} (h : F.Declarations R)

include h

mutual

theorem prepare : ∀ {st : Stmt}, F.declares st → R (Exec.prepare st) (Exec.prepare st)
  | .function f, hd => by
    unfold Exec.prepare
    exact h.declareFunction f (by simpa only [declares] using hd)
  | .classDef _ name methods _ line, hd => by
    unfold Exec.prepare
    exact h.addType name _ _ (type_typeOf (by simpa only [declares] using hd))
  | .include _ body _, hd => by
    unfold Exec.prepare
    exact prepareAll (by simpa only [declares] using hd)
  | .expression _, _ | .assign _ _ _, _ | .update _ _ _ _, _ | .realize _ _ _, _ | .nop _, _
  | .block _ _, _ | .branch _ _ _ _, _ | .loop _ _, _ | .whileLoop _ _ _, _ | .doWhile _ _ _, _
  | .forLoop _ _ _ _ _, _ | .break _, _ | .continue _, _ | .return _ _, _ | .global _ _, _ => by
    unfold Exec.prepare
    exact h.pure

theorem prepareAll : ∀ {ss : List Stmt}, F.declaresAll ss →
    R (Exec.prepareAll ss) (Exec.prepareAll ss)
  | [], _ => by
    unfold Exec.prepareAll
    exact h.pure
  | s :: ss, hd => by
    unfold Exec.prepareAll
    rw [declaresAll] at hd
    exact h.bind (prepare hd.1) (prepareAll hd.2)

end

end Declarations

end Fragment

/-! ## Logics of programs -/

/-- A relation between steps that is kept by names, by declarations, and by scopes in which nothing
is declared. -/
structure LoopLogic (F : Fragment) extends CellLogic F where
  /-- Two steps are related in a scope that has just been opened. -/
  Fresh : Flags → {α : Type} → Exec α → Exec α → Prop
  /-- Where jumps may stand everywhere, it does not matter which flags are raised. -/
  jumps {l m : Flags} {α : Type} {Q : α → Prop} {x y : Exec α} : F.jumps → Rel l Q x y → Rel m Q x y
  evaluateName (name : String) (use : Use) (line : Nat) : (use = .location → F.creates name) →
    Rel .none (fun _ => True) (Exec.evaluateName name use line) (Exec.evaluateName name use line)
  fresh {l : Flags} {α : Type} {x y : Exec α} : Rel l (fun _ => True) x y → Fresh l x y
  prepared {l : Flags} {body : List Stmt} {x y : Exec Unit} : F.declaresAll body →
    Rel l (fun _ => True) x y →
    Fresh l (Exec.prepareAll body >>= fun _ => x) (Exec.prepareAll body >>= fun _ => y)
  takeResult {x y : Exec Unit} : Fresh .ofReturn x y →
    Fresh .none (Exec.takeResult x) (Exec.takeResult y)
  inScope {l : Flags} {x y : Exec Unit} : Rel l (fun _ => True) x y →
    Rel l (fun _ => True) (Exec.inBlock x) (Exec.inBlock y)
  loopBefore {c d : Exec Bool} {x y u v : Exec Unit} (limit : Nat) : F.loops →
    Rel .none (fun _ => True) c d → Rel (.within true) (fun _ => True) x y →
    Rel .ofReturn (fun _ => True) u v →
    Rel .ofReturn (fun _ => True) (Exec.loopBefore limit c x u) (Exec.loopBefore limit d y v)
  loopAfter {c d : Exec Bool} {x y : Exec Unit} (limit : Nat) : F.loops →
    Rel .none (fun _ => True) c d → Rel (.within true) (fun _ => True) x y →
    Rel .ofReturn (fun _ => True) (Exec.loopAfter limit c x) (Exec.loopAfter limit d y)

/-- A relation between steps that is kept by names, by declarations and by all that encloses other
steps but calls and realizations. -/
structure ScopeLogic (F : Fragment) extends LoopLogic F where
  inBlock {l : Flags} {x y : Exec Unit} : Fresh l x y →
    Rel l (fun _ => True) (Exec.inBlock x) (Exec.inBlock y)
  inScope h := inBlock (fresh h)

/-- A relation between steps that all constructs of the fragment keep but blocks and calls. Programs
give an object members only where these are missing, and they fill only objects that they have just
made. -/
structure ObjectLogic (F : Fragment) extends LoopLogic F where
  /-- What is known of an object that has just been made. -/
  Made : ObjectRef → Prop
  makeObject (t : ObjectType) : F.type t → Rel .none Made (Exec.makeObject t) (Exec.makeObject t)
  evaluateMember (owner : Cell) (name : String) (use : Use) (line : Nat) :
    Rel .none (fun _ => True) (Exec.evaluateMember owner name use line)
      (Exec.evaluateMember owner name use line)
  fillObject {x y : Exec Unit} (obj : Cell) (r : ObjectRef) : Made r → Fresh .ofReturn x y →
    Rel .ofReturn (fun _ => True) (Exec.fillObject obj r x) (Exec.fillObject obj r y)
  declareGlobal (name : String) : F.globals →
    Rel .none (fun _ => True) (modify (·.declareGlobal name)) (modify (·.declareGlobal name))

/-- A relation between steps that all constructs of the fragment keep but calls. -/
structure NodeLogic (F : Fragment) extends ScopeLogic F, ObjectLogic F

/-- A relation between steps that all constructs of the fragment keep but calls, whichever objects
are given members and filled. -/
structure ProgramLogic (F : Fragment) extends StepLogic F, ScopeLogic F where
  fillObject {x y : Exec Unit} (obj : Cell) (r : ObjectRef) : Fresh .ofReturn x y →
    Rel .ofReturn (fun _ => True) (Exec.fillObject obj r x) (Exec.fillObject obj r y)

/-! ## Nodes and their parts -/

/-- A set of expressions, and of statements inside or outside of loops. -/
structure Nodes where
  expr : Expr → Prop
  stmt : (inLoop : Bool) → Stmt → Prop

/-- All of the statements are in the set. -/
def Nodes.all (K : Nodes) (inLoop : Bool) (ss : List Stmt) : Prop := ∀ st ∈ ss, K.stmt inLoop st

/-- The parts of an expression are in the set, and it is in the fragment if these are. -/
def Expr.PartsIn (F : Fragment) (K : Nodes) : Expr → Prop
  | .string _ _ => F.texts
  | .name n use _ => use = .location → F.creates n
  | .color es _ => ∀ e ∈ es, K.expr e
  | .vector x y _ => K.expr x ∧ K.expr y
  | .list es _ => ∀ e ∈ es, K.expr e
  | .member target _ _ _ => K.expr target
  | .index target position _ _ => K.expr target ∧ K.expr position
  | .call function arguments _ => K.expr function ∧ ∀ e ∈ arguments, K.expr e
  | .new _ arguments _ => ∀ e ∈ arguments, K.expr e
  | .negate e _ => K.expr e
  | .not e _ => K.expr e
  | .preIncrement e _ _ => K.expr e
  | .postIncrement e _ _ => K.expr e
  | .arithmetic _ lhs rhs _ => K.expr lhs ∧ K.expr rhs
  | .relational _ lhs rhs _ => K.expr lhs ∧ K.expr rhs
  | .logical _ lhs rhs _ => K.expr lhs ∧ K.expr rhs
  | _ => True

/-- The parts of a statement are in the set, and it is in the fragment if these are. -/
def Stmt.PartsIn (F : Fragment) (K : Nodes) (inLoop : Bool) : Stmt → Prop
  | .expression e => K.expr e
  | .assign target value _ => K.expr target ∧ K.expr value
  | .update _ target value _ => K.expr target ∧ K.expr value
  | .realize _ body _ => F.declaresAll body ∧ K.all false body
  | .include _ body _ => K.all false body
  | .block body _ => F.declaresAll body ∧ K.all inLoop body
  | .branch condition positive negative _ =>
    K.expr condition ∧ K.stmt inLoop positive ∧ ∀ st ∈ negative, K.stmt inLoop st
  | .loop body _ => F.loops ∧ K.stmt true body
  | .whileLoop condition body _ => F.loops ∧ K.expr condition ∧ K.stmt true body
  | .doWhile condition body _ => F.loops ∧ K.expr condition ∧ K.stmt true body
  | .forLoop init condition step body _ =>
    F.loops ∧ K.stmt false init ∧ K.expr condition ∧ K.stmt false step ∧ K.stmt true body
  | .break _ => F.jumps ∨ inLoop = true
  | .continue _ => F.jumps ∨ inLoop = true
  | .return value _ => ∀ e ∈ value, K.expr e
  | .global _ _ => F.globals
  | _ => True

/-- A statement that holds no others and is no jump. -/
def Stmt.isPlain : Stmt → Bool
  | .expression _ => true
  | .assign _ _ _ => true
  | .update _ _ _ _ => true
  | .nop _ => true
  | .global _ _ => true
  | .function _ => true
  | .classDef _ _ _ _ _ => true
  | _ => false

/-! ## Steps that are written out by cases -/

namespace Exec

theorem storage_bind {α : Type} (f : Store → Exec α) (s : State) :
    (storage >>= f) s = f s.store s := rfl

/-- The text of the element at a place, if there is one, and then what follows. -/
def elementThen (text : Cell → Exec String) (r : ListRef) (i : Nat) (before : List String)
    (rest : List String → Exec (List String)) : Exec (List String) := do
  match ((← storage).list r)[i]? with
  | none => return before.reverse
  | some c =>
    let t ← text c
    rest (t :: before)

theorem elementTexts_succ (text : Cell → Exec String) (r : ListRef) (n i : Nat)
    (before : List String) : elementTexts text r (n + 1) i before =
      elementThen text r i before (elementTexts text r n (i + 1)) := by
  funext s
  unfold elementThen
  rw [elementTexts, storage_bind]
  dsimp only
  cases (s.store.list r)[i]? with
  | none => rfl
  | some c =>
    dsimp only
    change _ = EStateM.bind (text c) _ s
    rw [EStateM.bind]
    cases text c s <;> rfl

theorem evaluateElements_congr {f g : Expr → Exec Cell} {es : List Expr}
    (h : ∀ e ∈ es, f e = g e) : evaluateElements f es = evaluateElements g es := by
  induction es with
  | nil => rfl
  | cons e es ih =>
    unfold evaluateElements
    rw [h e List.mem_cons_self, ih fun e he => h e (List.mem_cons_of_mem _ he)]

end Exec

namespace CellLogic

variable {F : Fragment} (L : CellLogic F)

theorem elementThen {f g : Cell → Exec String} {u v : List String → Exec (List String)}
    (hf : ∀ c, L.Holds (f c) (g c)) (hu : ∀ texts, L.Holds (u texts) (v texts)) (r : ListRef)
    (i : Nat) (before : List String) :
    L.Holds (Exec.elementThen f r i before u) (Exec.elementThen g r i before v) := by
  refine Holds.bind L.storage fun store => ?_
  cases (store.list r)[i]? with
  | none => exact L.holds_pure _
  | some c => exact (hf c).bind fun t => hu _

theorem elementTexts (out : F.failure .outOfFuel) {f g : Cell → Exec String}
    (hf : ∀ c, L.Holds (f c) (g c)) (r : ListRef) (n i : Nat) (before : List String) :
    L.Holds (Exec.elementTexts f r n i before) (Exec.elementTexts g r n i before) := by
  induction n generalizing i before with
  | zero => exact L.throw _ out
  | succ n ih =>
    rw [Exec.elementTexts_succ, Exec.elementTexts_succ]
    exact L.elementThen hf (ih (i + 1)) r i before

theorem runNative {host : Host} {f g : Cell → Exec String}
    (hf : F.texts → ∀ c, L.Holds (f c) (g c)) {k : Callable} (hk : F.callable k)
    (hh : ∀ name ps, k = .host name ps → L.Holds (host name) (host name)) :
    L.Holds (Exec.runNative host f k) (Exec.runNative host g k) := by
  cases k with
  | script ps body id => exact L.holds_pure _
  | builtin b => exact L.runBuiltin (hf (F.builtin hk)) b
  | colorMethod m r => exact L.runColorMethod m r
  | vectorMethod m r => exact L.runVectorMethod m r
  | listMethod m r => exact L.runListMethod m r
  | host name ps => exact hh name ps rfl

/-- A kind is that of a text only where there are texts. -/
theorem kindOf_string (c : Cell) :
    L.Rel .none (fun k => k = .string → F.texts) (Exec.kindOf c) (Exec.kindOf c) := by
  refine L.bind (L.value c) fun v hv => L.pure fun hk => ?_
  cases v with
  | string t => exact (F.value_string t).1 hv
  | _ => cases hk

theorem involvesText (a b : Cell) :
    L.Rel .none (fun joined => joined = true → F.texts) (Exec.involvesText a b)
      (Exec.involvesText a b) := by
  refine L.bind (L.kindOf_string a) fun k hk => L.bind (L.kindOf_string b) fun m hm =>
    L.pure fun joined => ?_
  rcases Bool.or_eq_true_iff.1 joined with h | h
  · exact hk (beq_iff_eq.1 h)
  · exact hm (beq_iff_eq.1 h)

/-! ## Places, lists and colors -/

theorem realsOf (line : Option Nat) (cs : List Cell) :
    L.Holds (Exec.realsOf line cs) (Exec.realsOf line cs) := by
  induction cs with
  | nil => exact L.holds_pure _
  | cons c cs ih => exact (L.asReal _ _).bind fun _ => ih.bind fun _ => L.holds_pure _

theorem colorOf (cells : List Cell) (line : Option Nat) :
    L.Holds (Exec.colorOf cells line) (Exec.colorOf cells line) := by
  unfold Exec.colorOf
  split
  · exact (L.asInteger _ _).bind fun _ => L.ofNumber _
  · exact (L.realsOf _ _).bind fun _ => L.holds_pure _

open Classical in
/-- Only the expressions of a list have to be related. -/
theorem evaluateListOf {f g : Expr → Exec Cell} {es : List Expr}
    (h : ∀ e ∈ es, L.Holds (f e) (g e)) :
    L.Holds (Exec.evaluateList f es) (Exec.evaluateList g es) := by
  let only (k : Expr → Exec Cell) (e : Expr) : Exec Cell :=
    if e ∈ es then k e else Exec.fail .noMembers none
  have same (k : Expr → Exec Cell) : Exec.evaluateList k es = Exec.evaluateList (only k) es := by
    unfold Exec.evaluateList
    rw [Exec.evaluateElements_congr fun e he => (if_pos he).symm]
  rw [same f, same g]
  refine L.evaluateList es fun e => ?_
  by_cases he : e ∈ es
  · simpa only [only, if_pos he] using h e he
  · simpa only [only, if_neg he] using L.fail _ _

theorem evaluateAll {f g : Expr → Exec Cell} {es : List Expr}
    (h : ∀ e ∈ es, L.Holds (f e) (g e)) :
    L.Holds (Exec.evaluateAll f es) (Exec.evaluateAll g es) := by
  induction es with
  | nil => exact L.holds_pure _
  | cons e es ih =>
    exact (h e List.mem_cons_self).bind fun _ =>
      (ih fun e he => h e (List.mem_cons_of_mem _ he)).bind fun _ => L.holds_pure _

/-- Evaluating a member may make one. -/
theorem evaluateMember {owner : Cell} {name : String} {line : Nat}
    (made : L.Holds (Exec.newMember owner name (some line))
      (Exec.newMember owner name (some line))) (use : Use) :
    L.Holds (Exec.evaluateMember owner name use line)
      (Exec.evaluateMember owner name use line) := by
  refine (L.member? owner name).bind fun c => ?_
  split
  · exact L.holds_pure _
  · cases use with
    | operand => exact L.fail _ _
    | location => exact made

end CellLogic

open CellLogic (Holds)

/-- Where any object may be given members and filled, nothing has to be known of new ones. -/
@[reducible] def ProgramLogic.nodes {F : Fragment} (L : ProgramLogic F) : NodeLogic F where
  toScopeLogic := L.toScopeLogic
  Made _ := True
  makeObject := L.makeObject
  evaluateMember _ _ use _ := L.toCellLogic.evaluateMember (L.newMember _ _ _) use
  fillObject obj r _ := L.fillObject obj r
  declareGlobal name _ := L.declareGlobal name

/-! ## One layer -/

namespace ObjectLogic

variable {F : Fragment}

theorem newObject (L : ObjectLogic F) (t : ObjectType) (h : F.type t) :
    L.Holds (Exec.newObject t) (Exec.newObject t) :=
  L.bind (L.makeObject t h) fun _ _ => L.newCell _ (F.data rfl)

/-- Two interpreters are related on a set of nodes, and in calls and texts. -/
structure AgreeOn (L : ObjectLogic F) (K : Nodes) (p q : Interp) : Prop where
  evaluate {e : Expr} : K.expr e → L.Holds (p.evaluate e) (q.evaluate e)
  execute {inLoop : Bool} {st : Stmt} : K.stmt inLoop st →
    L.Rel (.within inLoop) (fun _ => True) (p.execute st) (q.execute st)
  run {inLoop : Bool} {ss : List Stmt} : K.all inLoop ss →
    L.Rel (.within inLoop) (fun _ => True) (p.run ss) (q.run ss)
  invoke {f : Callable} (owner : Option ObjectRef) (args : List Cell) (line : Option Nat) :
    F.callable f → L.Holds (p.invoke f owner args line) (q.invoke f owner args line)
  fullText (c : Cell) (line : Option Nat) :
    F.texts → L.Holds (Exec.fullText p c line) (Exec.fullText q c line)

namespace AgreeOn

variable {L : ObjectLogic F} {K : Nodes} {p q : Interp} (h : L.AgreeOn K p q)

include h

/-! ### Calls and texts -/

theorem callCell (c : Cell) (args : List Cell) (line : Option Nat) :
    L.Holds (Exec.callCell p c args line) (Exec.callCell q c args line) := by
  refine L.bind (L.value c) fun v hv => ?_
  split
  · exact h.invoke _ _ _ ((F.value_function _ _).1 hv)
  · exact L.fail _ _

/-- Texts of lists whose elements are counted in two ways. -/
theorem textWith_of_elements (deep : F.failure .exhausted) {m n : Nat} (line : Option Nat)
    (ht : ∀ frames c, L.Holds (p.text frames c line) (q.text frames c line))
    (elements : ∀ frames r, L.Holds (Exec.elementTexts (p.text frames · line) r m 0 [])
      (Exec.elementTexts (q.text frames · line) r n 0 []))
    (frames : Nat) (c : Cell) :
    L.Holds (Exec.textWith m p frames c line) (Exec.textWith n q frames c line) := by
  refine L.bind (L.value c) fun v _ => ?_
  split
  · split
    · exact L.throw _ deep
    · exact (elements _ _).bind fun _ => L.holds_pure _
  · refine (L.method? c _).bind fun m => ?_
    split
    · split
      · exact L.fail _ _
      · exact (h.callCell _ _ _).bind fun _ => ht _ _
    · exact Holds.bind L.storage fun _ => L.ofNumber _
  · exact Holds.bind L.storage fun _ => L.ofNumber _

theorem textWith (out : F.failure .outOfFuel) (deep : F.failure .exhausted)
    (ht : ∀ frames c line, L.Holds (p.text frames c line) (q.text frames c line))
    (limit frames : Nat) (c : Cell) (line : Option Nat) :
    L.Holds (Exec.textWith limit p frames c line) (Exec.textWith limit q frames c line) :=
  h.textWith_of_elements deep line (ht · · line)
    (fun frames r => L.elementTexts out (fun e => ht frames e line) r limit 0 []) frames c

/-- The declarations of statements and then the statements themselves. -/
theorem prepareAndRun {inLoop : Bool} {body : List Stmt} (hd : F.declaresAll body)
    (hb : K.all inLoop body) :
    L.Fresh (.within inLoop) (Exec.prepareAll body >>= fun _ => p.run body)
      (Exec.prepareAll body >>= fun _ => q.run body) :=
  L.prepared hd (h.run hb)

theorem runCallable {host : Host} {k : Callable} (line : Option Nat) (hk : F.callable k)
    (hh : ∀ name ps, k = .host name ps → L.Holds (host name) (host name))
    (hb : ∀ ps body id, k = .script ps body id → F.declaresAll body ∧ K.all false body) :
    L.Fresh .none (Exec.runCallable host p k line) (Exec.runCallable host q k line) := by
  unfold Exec.runCallable
  split
  · next ps body id =>
    obtain ⟨hd, hbody⟩ := hb ps body id rfl
    exact L.takeResult (h.prepareAndRun hd hbody)
  · have native := L.runNative (fun ht c => h.fullText c none ht) hk hh
    refine L.fresh (Holds.bind (L.located line native) fun c => ?_)
    split
    · exact L.holds_pure _
    · exact L.newCell _ (F.data rfl)

/-! ### Operators -/

theorem overload? (symbol : String) (a b : Cell) (line : Option Nat) :
    L.Holds (Exec.overload? p symbol a b line) (Exec.overload? q symbol a b line) := by
  refine L.bind (L.value a) fun v _ => ?_
  split
  · refine (L.method? a _).bind fun m => ?_
    split
    · exact (h.callCell _ _ _).bind fun _ => L.holds_pure _
    · exact L.holds_pure _
  · exact L.holds_pure _

omit h in
theorem builtinArithmetic (op : ArithmeticOp) (a b : Cell) (line : Option Nat) : L.Holds
    (do match ← Exec.arithmetic? op a b line with
        | some c => return c
        | none => Exec.unsupported a b op.symbol line)
    (do match ← Exec.arithmetic? op a b line with
        | some c => return c
        | none => Exec.unsupported a b op.symbol line) := by
  refine (L.arithmetic? op a b line).bind fun c => ?_
  split
  · exact L.holds_pure _
  · exact L.unsupported _ _ _ _

theorem applyArithmetic (op : ArithmeticOp) (a b : Cell) (line : Option Nat) :
    L.Holds (Exec.applyArithmetic p op a b line) (Exec.applyArithmetic q op a b line) := by
  refine (h.overload? op.symbol a b line).bind fun c => ?_
  split
  · exact L.holds_pure _
  · split
    · refine L.bind (L.involvesText a b) fun joined ht => ?_
      split
      · next hj =>
        exact (h.fullText a line (ht hj)).bind fun _ => (h.fullText b line (ht hj)).bind fun _ =>
          L.newCell _ ((F.value_string _).2 (ht hj))
      · exact builtinArithmetic op a b line
    · exact builtinArithmetic op a b line

theorem applyRelational (op : RelationalOp) (a b : Cell) (line : Option Nat) :
    L.Holds (Exec.applyRelational p op a b line) (Exec.applyRelational q op a b line) := by
  refine (L.kindOf a).bind fun _ => (L.kindOf b).bind fun _ => ?_
  split
  · exact L.newCell _ (F.data rfl)
  · refine (h.overload? op.symbol a b line).bind fun c => ?_
    split
    · exact L.holds_pure _
    · refine (L.compare? op a b line).bind fun r => ?_
      split
      · exact L.newCell _ (F.data rfl)
      · exact L.unsupported _ _ _ _

/-! ### Expressions -/

theorem evaluateNew (typeName : String) {arguments : List Expr} (line : Nat)
    (ha : ∀ e ∈ arguments, K.expr e) :
    L.Holds (Exec.evaluateNew p typeName arguments line)
      (Exec.evaluateNew q typeName arguments line) := by
  refine L.bind (L.findType? typeName) fun t ht => ?_
  split
  · exact L.fail _ _
  · next t =>
    split
    · exact L.fail _ _
    · refine (L.newObject t (ht t rfl)).bind fun obj =>
        (L.evaluateAll fun e he => h.evaluate (ha e he)).bind fun _ =>
          (L.method? obj typeName).bind fun m => ?_
      split
      · exact (h.callCell _ _ _).bind fun _ => L.holds_pure _
      · split
        · exact L.holds_pure _
        · exact L.fail _ _

theorem evaluateWith {e : Expr} (he : e.PartsIn F K) :
    L.Holds (Exec.evaluateWith p e) (Exec.evaluateWith q e) := by
  have all {es : List Expr} (hes : ∀ e ∈ es, K.expr e) :
      L.Holds (Exec.evaluateAll p.evaluate es) (Exec.evaluateAll q.evaluate es) :=
    L.evaluateAll fun e he => h.evaluate (hes e he)
  cases e with
  | integer n line => exact L.newCell _ (F.data rfl)
  | real x line => exact L.newCell _ (F.data rfl)
  | string s line => exact L.newCell _ ((F.value_string s).2 he)
  | boolean b line => exact L.newCell _ (F.data rfl)
  | undefined line => exact L.newCell _ (F.data rfl)
  | color es line => exact (all he).bind fun _ => (L.colorOf _ _).bind fun _ => L.newColor _
  | vector x y line =>
    exact (h.evaluate he.1).bind fun _ => (L.asReal _ _).bind fun _ =>
      (h.evaluate he.2).bind fun _ => (L.asReal _ _).bind fun _ => L.newVector _
  | list es line => exact L.evaluateListOf fun e hes => h.evaluate (he e hes)
  | name name use line => exact L.evaluateName _ _ _ he
  | member target name use line =>
    exact (h.evaluate he).bind fun _ => L.evaluateMember _ _ _ _
  | index target position use line =>
    exact (h.evaluate he.1).bind fun _ => (h.evaluate he.2).bind fun _ =>
      (L.asInteger _ _).bind fun _ => L.element _ _ _
  | call function arguments line =>
    exact (h.evaluate he.1).bind fun _ => (all he.2).bind fun _ =>
      L.located _ (h.callCell _ _ _)
  | new typeName arguments line => exact h.evaluateNew _ _ he
  | negate operand line => exact (h.evaluate he).bind fun _ => L.negate _ _
  | not operand line =>
    exact (h.evaluate he).bind fun _ => (L.asBoolean _ _).bind fun _ => L.newCell _ (F.data rfl)
  | preIncrement operand direction line =>
    exact (h.evaluate he).bind fun _ => (L.increment _ _ _).bind fun _ => L.holds_pure _
  | postIncrement operand direction line =>
    exact (h.evaluate he).bind fun _ => Holds.bind (L.copyCell _) fun _ =>
      (L.increment _ _ _).bind fun _ => L.holds_pure _
  | arithmetic op lhs rhs line =>
    exact (h.evaluate he.1).bind fun _ => (h.evaluate he.2).bind fun _ =>
      h.applyArithmetic _ _ _ _
  | relational op lhs rhs line =>
    exact (h.evaluate he.1).bind fun _ => (h.evaluate he.2).bind fun _ =>
      h.applyRelational _ _ _ _
  | logical op lhs rhs line =>
    refine (h.evaluate he.1).bind fun _ => (L.asBoolean _ _).bind fun left => ?_
    split
    · exact L.newCell _ (F.data rfl)
    · exact L.newCell _ (F.data rfl)
    · exact (h.evaluate he.2).bind fun _ => (L.asBoolean _ _).bind fun _ =>
        L.newCell _ (F.data rfl)

/-! ### Statements -/

theorem holds {condition : Expr} (line : Nat) (hc : K.expr condition) :
    L.Holds (Exec.holds p condition line) (Exec.holds q condition line) :=
  (h.evaluate hc).bind fun _ => L.asBoolean _ _

theorem callIfMethod (obj : Cell) (name : String) (line : Nat) :
    L.Holds (Exec.callIfMethod p obj name line) (Exec.callIfMethod q obj name line) := by
  refine (L.method? obj name).bind fun m => ?_
  split
  · exact (h.callCell _ _ _).bind fun _ => L.holds_pure _
  · exact L.holds_pure _

theorem realize (typeName : String) {body : List Stmt} (line : Nat) (hd : F.declaresAll body)
    (hb : K.all false body) :
    L.Rel .ofReturn (fun _ => True) (Exec.realize p typeName body line)
      (Exec.realize q typeName body line) := by
  refine L.bind (L.mono (Flags.none_below _) (fun _ h => h) (L.findType? typeName)) fun t ht => ?_
  split
  · exact L.fail _ _
  · next t =>
    refine L.bind (L.mono (Flags.none_below _) (fun _ h => h) (L.makeObject t (ht t rfl)))
      fun r hr => ?_
    refine L.bind (Holds.weaken (L.newCell _ (F.data rfl))) fun obj _ => ?_
    refine L.bind (h.callIfMethod _ _ _).weaken fun _ _ => ?_
    refine L.bind (L.fillObject obj r hr (h.prepareAndRun hd hb)) fun _ _ => ?_
    exact Holds.weaken ((h.callIfMethod _ _ _).bind fun _ => L.addAnonymous _)

/-- Statements that hold no others, and raise nothing. -/
theorem plain (limit : Nat) {inLoop : Bool} {st : Stmt} (hp : st.isPlain = true)
    (hst : st.PartsIn F K inLoop) :
    L.Holds (Exec.executeWith limit p st) (Exec.executeWith limit q st) := by
  cases st with
  | expression e => exact (h.evaluate hst).bind fun _ => L.holds_pure _
  | assign target value line =>
    exact (h.evaluate hst.2).bind fun _ => (h.evaluate hst.1).bind fun _ => L.assign _ _ _
  | update op target value line =>
    exact (h.evaluate hst.1).bind fun _ => (h.evaluate hst.2).bind fun _ =>
      (h.applyArithmetic _ _ _ _).bind fun _ => L.assign _ _ _
  | global name line => exact L.declareGlobal name hst
  | nop _ | function _ | classDef _ _ _ _ _ => exact L.holds_pure _
  | realize _ _ _ | «include» _ _ _ | block _ _ | branch _ _ _ _ | loop _ _ | whileLoop _ _ _
  | doWhile _ _ _ | forLoop _ _ _ _ _ | «break» _ | «continue» _ | «return» _ _ =>
    simp [Stmt.isPlain] at hp

/-- Statements but blocks. -/
theorem executeOther (limit : Nat) {inLoop : Bool} {st : Stmt} (hst : st.PartsIn F K inLoop)
    (hb : ∀ body line, st ≠ .block body line) :
    L.Rel (.within inLoop) (fun _ => True) (Exec.executeWith limit p st)
      (Exec.executeWith limit q st) := by
  have ofReturn {x y : Exec Unit} (hx : L.Rel .ofReturn (fun _ => True) x y) :
      L.Rel (.within inLoop) (fun _ => True) x y :=
    L.mono (Flags.ofReturn_below_within _) (fun _ h => h) hx
  cases st with
  | expression _ | assign _ _ _ | update _ _ _ _ | nop _ | global _ _ | function _
  | classDef _ _ _ _ _ => exact (h.plain limit rfl hst).weaken
  | realize typeName body line => exact ofReturn (h.realize _ _ hst.1 hst.2)
  | «include» path body line => exact ofReturn (h.run hst)
  | block body line => exact absurd rfl (hb body line)
  | branch condition positive negative line =>
    refine L.bind (h.holds line hst.1).weaken fun b _ => ?_
    split
    · exact h.execute hst.2.1
    · split
      · next st => exact h.execute (hst.2.2 st rfl)
      · exact (L.holds_pure _).weaken
  | loop body line =>
    exact ofReturn (L.inScope (L.loopBefore _ hst.1 (L.holds_pure _) (h.execute hst.2)
      (L.holds_pure _).weaken))
  | whileLoop condition body line =>
    exact ofReturn (L.inScope (L.loopBefore _ hst.1 (h.holds _ hst.2.1)
      (h.execute hst.2.2) (L.holds_pure _).weaken))
  | doWhile condition body line =>
    exact ofReturn (L.inScope (L.loopAfter _ hst.1 (h.holds _ hst.2.1)
      (h.execute hst.2.2)))
  | forLoop init condition step body line =>
    obtain ⟨hl, hi, hc, hs, hb⟩ := hst
    exact ofReturn (L.inScope (L.bind (h.execute hi) fun _ _ =>
      L.loopBefore _ hl (h.holds _ hc) (h.execute hb) (h.execute hs)))
  | «break» line =>
    rcases hst with hj | rfl
    · exact L.jumps hj (L.raise .ofBreak)
    · exact L.mono (by simp [Flags.Below, Flags.ofBreak, Flags.within]) (fun _ h => h)
        (L.raise .ofBreak)
  | «continue» line =>
    rcases hst with hj | rfl
    · exact L.jumps hj (L.raise .ofContinue)
    · exact L.mono (by simp [Flags.Below, Flags.ofContinue, Flags.within]) (fun _ h => h)
        (L.raise .ofContinue)
  | «return» value line =>
    have finish (c : Cell) : L.Rel .ofReturn (fun _ => True)
        (Exec.setReturn c (some line) >>= fun _ => Exec.raise .ofReturn)
        (Exec.setReturn c (some line) >>= fun _ => Exec.raise .ofReturn) :=
      L.bind (L.setReturn c _) fun _ _ => L.raise .ofReturn
    cases value with
    | none => exact ofReturn (L.bind (Holds.weaken (L.newCell _ (F.data rfl))) fun c _ => finish c)
    | some e => exact ofReturn (L.bind (h.evaluate (hst e rfl)).weaken fun c _ => finish c)

omit h in
theorem executeWith {L : NodeLogic F} (h : L.AgreeOn K p q) (limit : Nat) {inLoop : Bool}
    {st : Stmt} (hst : st.PartsIn F K inLoop) :
    L.Rel (.within inLoop) (fun _ => True) (Exec.executeWith limit p st)
      (Exec.executeWith limit q st) := by
  by_cases hb : ∃ body line, st = .block body line
  · obtain ⟨body, line, rfl⟩ := hb
    exact L.inBlock (h.prepareAndRun hst.1 hst.2)
  · exact h.executeOther limit hst fun body line same => hb ⟨body, line, same⟩

end AgreeOn

end ObjectLogic

/-- Two interpreters are related on a set of nodes, and in calls and texts. -/
abbrev ProgramLogic.AgreeOn {F : Fragment} (L : ProgramLogic F) (K : Nodes) (p q : Interp) : Prop :=
  L.nodes.AgreeOn K p q

end CellScript
