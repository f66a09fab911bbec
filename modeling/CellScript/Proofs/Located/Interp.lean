import CellScript.Proofs.Congruence.Interp
import CellScript.Proofs.Located.Steps

/-!
# Located programs

Expressions and statements fail at lines of programs. A call fails at the line it is given or at a
line of the function that it runs, and closes the places that a standard function leaves open. Texts
fail at the line that they are given, or leave the place open if they are given none.

* `Interp.FailsIn L`: this, of an interpreter;
* `located_withFuel`: it holds of the interpreter of the language, whatever its fuel.
-/

namespace CellScript

/-- The interpreter runs programs with lines in `L` so that failures have lines in `L`. -/
structure Interp.FailsIn (L : Nat → Prop) (p : Interp) : Prop where
  evaluate {e : Expr} : (∀ l ∈ e.lines, L l) →
    Exec.Located L false (fun _ => True) (p.evaluate e)
  execute {st : Stmt} : (∀ l ∈ st.lines, L l) →
    Exec.Located L false (fun _ => True) (p.execute st)
  run {ss : List Stmt} : (∀ l ∈ Stmt.linesAll ss, L l) →
    Exec.Located L false (fun _ => True) (p.run ss)
  invoke {f : Callable} {o : Bool} {line : Option Nat} (owner : Option ObjectRef)
    (args : List Cell) : f.Lined L → LineIn L o line →
    Exec.Located L o (fun _ => True) (p.invoke f owner args line)
  text {o : Bool} {line : Option Nat} (frames : Nat) (c : Cell) : LineIn L o line →
    Exec.Located L o (fun _ => True) (p.text frames c line)

namespace Exec.Located

variable {L : Nat → Prop} {o : Bool} {line : Option Nat}

/-! ## Declarations -/

theorem declareFunction {f : FunctionDef Stmt} (hf : ∀ l ∈ f.lines, L l) :
    Located L false (fun _ => True) (declareFunction f) := by
  simp only [FunctionDef.lines_eq, List.forall_mem_cons] at hf
  obtain ⟨hline, hbody⟩ := hf
  refine (find? f.name).bind fun c _ => ?_
  split
  · refine (value _).bind fun v _ => ?_
    split
    · split
      · exact pure trivial
      · exact fail hline
    · exact fail hline
  · have hv : Value.Lined L (.function (.script f.parameters f.body f.id) none) := hbody
    refine (newCell hv).bind fun c _ => choose fun s => ?_
    split
    · exact addGlobal _ _ hline
    · exact addLocal _ _

theorem lined_typeOf {isInstant : Bool} {name : String} {methods : List (FunctionDef Stmt)}
    {id : DefId} (h : ∀ l ∈ FunctionDef.linesAll methods, L l) :
    (typeOf isInstant name methods id).Lined L := by
  intro m hm
  obtain ⟨f, hf, rfl⟩ := List.mem_map.1 (Bindings.mem_ofList hm)
  intro l hl
  refine h l (FunctionDef.mem_linesAll hf ?_)
  rw [FunctionDef.lines_eq]
  exact List.mem_cons_of_mem _ hl

mutual

theorem prepare : ∀ {st : Stmt}, (∀ l ∈ st.lines, L l) →
    Located L false (fun _ => True) (prepare st)
  | .function f, h => by
    unfold Exec.prepare
    exact declareFunction (by simpa only [Stmt.lines] using h)
  | .classDef _ name methods _ line, h => by
    unfold Exec.prepare
    simp only [Stmt.lines, List.forall_mem_cons] at h
    exact addType name (lined_typeOf h.2) h.1
  | .include _ body _, h => by
    unfold Exec.prepare
    simp only [Stmt.lines, List.forall_mem_cons] at h
    exact prepareAll h.2
  | .expression _, _ | .assign _ _ _, _ | .update _ _ _ _, _ | .realize _ _ _, _ | .nop _, _
  | .block _ _, _ | .branch _ _ _ _, _ | .loop _ _, _ | .whileLoop _ _ _, _ | .doWhile _ _ _, _
  | .forLoop _ _ _ _ _, _ | .break _, _ | .continue _, _ | .return _ _, _ | .global _ _, _ => by
    unfold Exec.prepare
    exact pure trivial

theorem prepareAll : ∀ {ss : List Stmt}, (∀ l ∈ Stmt.linesAll ss, L l) →
    Located L false (fun _ => True) (prepareAll ss)
  | [], _ => by
    unfold Exec.prepareAll
    exact pure trivial
  | s :: ss, h => by
    unfold Exec.prepareAll
    simp only [Stmt.linesAll, List.forall_mem_append] at h
    exact (prepare h.1).bind fun _ _ => prepareAll h.2

end

/-! ## Steps around steps -/

theorem takeResult {x : Exec Unit} (hx : Located L o (fun _ => True) x) :
    Located L o (fun _ => True) (takeResult x) :=
  (newCell (v := .undefined) trivial).bind fun _ _ => (pushReturn _).bind fun _ _ =>
    hx.bind fun _ _ => (clear _).bind fun _ _ => popReturn

theorem ownerScope (owner : Option ObjectRef) :
    Located L o (fun _ => True) (ownerScope owner) := by
  cases owner with
  | none => exact pure trivial
  | some r => exact (memberScope r).bind fun _ _ => pure trivial

theorem argumentScope (parameters : List String) (args : List Cell) (hl : LineIn L o line) :
    Located L o (fun _ => True) (argumentScope parameters args line) := by
  have bound : ∀ (scope : Scope) (ps : List String) (as : List Cell),
      Located L o (fun _ => True) (bindArguments scope ps as) := by
    intro scope ps as
    fun_induction bindArguments scope ps as with
    | case1 scope as => exact pure trivial
    | case2 scope p ps ih => exact (newCell (v := .undefined) trivial).bind fun c _ => ih c
    | case3 scope p ps a as ih => exact ih
  unfold Exec.argumentScope
  split
  · exact fail hl
  · exact bound _ _ _

/-- A call whose text conversions overrun fails at its own line. -/
theorem inCall {x : Exec Cell} (parameters : List String) (owner : Option ObjectRef)
    (args : List Cell) (hl : LineIn L o line) (hx : Located L o (fun _ => True) x) :
    Located L o (fun _ => True) (inCall parameters owner args line x) := by
  refine (ownerScope owner).bind fun members _ => (argumentScope parameters args hl).bind
    fun scope _ => (enterCall hl).bind fun _ _ => bind (P := fun _ => True) ?_ fun depth _ =>
      bind (P := fun _ => True) ?_ fun _ _ => (hx.overrun hl).ensuring (leaveCall depth)
  · exact read fun _ _ => trivial
  · exact update (fun _ => by cases members <;> rfl) fun _ => by cases members <;> rfl

theorem inBlock {α : Type} {Q : α → Prop} {x : Exec α} (hx : Located L o Q x) :
    Located L o Q (inBlock x) :=
  bind (update (fun _ => rfl) fun _ => rfl) fun _ _ => hx.ensuring popLocalScope

theorem inRealization {x : Exec Unit} (obj : Cell) (members : Scope)
    (hx : Located L o (fun _ => True) x) :
    Located L o (fun _ => True) (inRealization obj members x) := by
  have names : Located L o (fun _ => True) innermostNames := by
    refine choose fun s => ?_
    split
    · exact pure trivial
    · exact pure trivial
  exact bind (update (fun _ => rfl) fun _ => rfl) fun _ _ =>
    bind (update (fun _ => rfl) fun _ => rfl) fun _ _ =>
      (hx.bind fun _ _ => names).ensuring (popInstant.bind fun _ _ => popLocalScope)

theorem promote (r : ObjectRef) (entries : List (String × Cell)) :
    Located L o (fun _ => True) (promote r entries) := by
  induction entries with
  | nil => exact pure trivial
  | cons entry rest ih =>
    obtain ⟨name, c⟩ := entry
    refine storage.bind fun store _ => ?_
    dsimp only
    split
    · refine (value c).bind fun v hv => ?_
      split
      · exact (bindMethod r name hv).bind fun _ _ => ih
      · exact bind (updateStore fun _ => rfl) fun _ _ => ih
    · exact ih

theorem bindParent (r : ObjectRef) : Located L o (fun _ => True) (bindParent r) := by
  refine bind (P := fun _ => True) ?_ fun _ _ => updateStore fun _ => rfl
  refine choose fun s => ?_
  split
  · exact copyCell _
  · exact newCell trivial

theorem fillObject {x : Exec Unit} (obj : Cell) (r : ObjectRef)
    (hx : Located L o (fun _ => True) x) : Located L o (fun _ => True) (fillObject obj r x) :=
  (memberScope r).bind fun _ _ => (inRealization obj _ hx).bind fun _ _ =>
    (promote r _).bind fun _ _ => bindParent r

theorem loopParts : LoopParts (fun x _ => Located L o (fun _ => True) x)
    fun x _ => Located L o (fun _ => True) x where
  pure _ := pure trivial
  bind hx hf := hx.bind fun a _ => hf a
  outOfFuel := throw trivial
  clear := clear
  loopExit := read fun _ _ => trivial
  whole hx := (clear _).bind fun _ _ => hx.bind fun _ _ => clear _

theorem loopBefore {condition : Exec Bool} {body next : Exec Unit} (limit : Nat)
    (hc : Located L o (fun _ => True) condition) (hb : Located L o (fun _ => True) body)
    (hn : Located L o (fun _ => True) next) :
    Located L o (fun _ => True) (loopBefore limit condition body next) :=
  loopParts.loopBefore (d := condition) (y := body) (v := next) limit hc hb hn

theorem loopAfter {condition : Exec Bool} {body : Exec Unit} (limit : Nat)
    (hc : Located L o (fun _ => True) condition) (hb : Located L o (fun _ => True) body) :
    Located L o (fun _ => True) (loopAfter limit condition body) :=
  loopParts.loopAfter (d := condition) (y := body) limit hc hb

theorem runAll {execute : Stmt → Exec Unit}
    (h : ∀ {st}, (∀ l ∈ st.lines, L l) → Located L o (fun _ => True) (execute st)) :
    ∀ {ss : List Stmt}, (∀ l ∈ Stmt.linesAll ss, L l) →
      Located L o (fun _ => True) (runAll execute ss)
  | [], _ => pure trivial
  | st :: ss, hss => by
    simp only [Stmt.linesAll, List.forall_mem_append] at hss
    refine (h hss.1).bind fun _ _ => choose fun s => ?_
    split
    · exact pure trivial
    · exact runAll h hss.2

/-! ## Places and colors -/

theorem realsOf (hl : LineIn L o line) (cs : List Cell) :
    Located L o (fun _ => True) (realsOf line cs) := by
  induction cs with
  | nil => exact pure trivial
  | cons c cs ih => exact (asReal _ hl).bind fun _ _ => ih.bind fun _ _ => pure trivial

theorem colorOf (cells : List Cell) (hl : LineIn L o line) :
    Located L o (fun _ => True) (colorOf cells line) := by
  unfold Exec.colorOf
  split
  · exact (asInteger _ hl).bind fun _ _ => ofNumber _
  · exact (realsOf hl _).bind fun _ _ => pure trivial

theorem evaluateName (name : String) (use : Use) {line : Nat} (hl : L line) :
    Located L false (fun _ => True) (evaluateName name use line) := by
  refine (find? name).bind fun c _ => ?_
  split
  · exact pure trivial
  · cases use with
    | operand => exact fail hl
    | location => exact newName name hl

theorem evaluateMember (owner : Cell) (name : String) (use : Use) {line : Nat} (hl : L line) :
    Located L false (fun _ => True) (evaluateMember owner name use line) := by
  refine (member? owner name).bind fun c _ => ?_
  split
  · exact pure trivial
  · cases use with
    | operand => exact fail hl
    | location => exact newMember owner name hl

theorem elementTexts {text : Cell → Exec String}
    (h : ∀ c, Located L o (fun _ => True) (text c)) (r : ListRef) (n i : Nat)
    (before : List String) : Located L o (fun _ => True) (elementTexts text r n i before) := by
  induction n generalizing i before with
  | zero => exact throw trivial
  | succ n ih =>
    rw [elementTexts_succ]
    refine storage.bind fun store _ => ?_
    cases (store.list r)[i]? with
    | none => exact pure trivial
    | some c => exact (h c).bind fun t _ => ih _ _

end Exec.Located

/-! ## One layer -/

namespace Interp.FailsIn

open Exec (Located)
open Exec.Located

variable {L : Nat → Prop} {o : Bool} {line : Option Nat} {p : Interp} (h : p.FailsIn L)

include h

/-! ### Texts and calls -/

theorem fullText (c : Cell) (hl : LineIn L o line) :
    Located L o (fun _ => True) (Exec.fullText p c line) :=
  bind (P := fun _ => True) (read fun _ _ => trivial) fun n _ => h.text n c hl

theorem callCell (c : Cell) (args : List Cell) (hl : LineIn L o line) :
    Located L o (fun _ => True) (Exec.callCell p c args line) := by
  refine (value c).bind fun v hv => ?_
  split
  · exact h.invoke _ _ hv hl
  · exact fail hl

theorem textWith (limit frames : Nat) (c : Cell) (hl : LineIn L o line) :
    Located L o (fun _ => True) (Exec.textWith limit p frames c line) := by
  refine (value c).bind fun v _ => ?_
  split
  · split
    · exact throw trivial
    · exact (elementTexts (fun e => h.text _ e hl) _ _ _ _).bind fun _ _ => pure trivial
  · refine (method? c _).bind fun m _ => ?_
    split
    · split
      · exact fail hl
      · exact (h.callCell _ _ hl).bind fun _ _ => h.text _ _ hl
    · exact storage.bind fun _ _ => ofNumber _
  · exact storage.bind fun _ _ => ofNumber _

theorem prepareAndRun {body : List Stmt} (hb : ∀ l ∈ Stmt.linesAll body, L l) :
    Located L o (fun _ => True) (Exec.prepareAll body >>= fun _ => p.run body) :=
  ((prepareAll hb).bind fun _ _ => h.run hb).weaken

theorem runNative (host : Host) {k : Callable} (hk : k.Lined L) :
    Located L true (fun _ => True) (Exec.runNative host (Exec.fullText p · none) k) := by
  cases k with
  | script ps body id => exact pure trivial
  | builtin b => exact runBuiltin (fun c => h.fullText c lineIn_none) b
  | colorMethod m r => exact runColorMethod m r
  | vectorMethod m r => exact runVectorMethod m r
  | listMethod m r => exact runListMethod m r
  | host name ps => exact hk.elim

/-- A standard function leaves its place open, and the call closes it. -/
theorem runCallable (host : Host) {k : Callable} (hk : k.Lined L) (hl : LineIn L o line) :
    Located L o (fun _ => True) (Exec.runCallable host p k line) := by
  unfold Exec.runCallable
  split
  · exact takeResult (h.prepareAndRun hk)
  · refine (located hl (h.runNative host hk)).bind fun c _ => ?_
    split
    · exact pure trivial
    · exact newCell trivial

theorem invokeWith (host : Host) {k : Callable} (owner : Option ObjectRef) (args : List Cell)
    (hk : k.Lined L) (hl : LineIn L o line) :
    Located L o (fun _ => True) (Exec.invokeWith host p k owner args line) :=
  inCall _ _ _ hl (h.runCallable host hk hl)

/-! ### Operators -/

theorem overload? (symbol : String) (a b : Cell) (hl : LineIn L o line) :
    Located L o (fun _ => True) (Exec.overload? p symbol a b line) := by
  refine (value a).bind fun v _ => ?_
  split
  · refine (method? a _).bind fun m _ => ?_
    split
    · exact (h.callCell _ _ hl).bind fun _ _ => pure trivial
    · exact pure trivial
  · exact pure trivial

omit h in
theorem builtinArithmetic (op : ArithmeticOp) (a b : Cell) (hl : LineIn L o line) :
    Located L o (fun _ => True)
      (do match ← Exec.arithmetic? op a b line with
          | some c => return c
          | none => Exec.unsupported a b op.symbol line) := by
  refine (arithmetic? op a b hl).bind fun c _ => ?_
  split
  · exact pure trivial
  · exact unsupported _ _ _ hl

theorem applyArithmetic (op : ArithmeticOp) (a b : Cell) (hl : LineIn L o line) :
    Located L o (fun _ => True) (Exec.applyArithmetic p op a b line) := by
  refine (h.overload? op.symbol a b hl).bind fun c _ => ?_
  split
  · exact pure trivial
  · split
    · refine bind (P := fun _ => True) ?_ fun joined _ => ?_
      · exact (kindOf a).bind fun _ _ => (kindOf b).bind fun _ _ => pure trivial
      · split
        · exact (h.fullText a hl).bind fun _ _ => (h.fullText b hl).bind fun _ _ =>
            newCell trivial
        · exact builtinArithmetic op a b hl
    · exact builtinArithmetic op a b hl

theorem applyRelational (op : RelationalOp) (a b : Cell) (hl : LineIn L o line) :
    Located L o (fun _ => True) (Exec.applyRelational p op a b line) := by
  refine (kindOf a).bind fun _ _ => (kindOf b).bind fun _ _ => ?_
  split
  · exact newCell trivial
  · refine (h.overload? op.symbol a b hl).bind fun c _ => ?_
    split
    · exact pure trivial
    · refine (compare? op a b hl).bind fun r _ => ?_
      split
      · exact newCell trivial
      · exact unsupported _ _ _ hl

/-! ### Expressions -/

theorem evaluateAll : ∀ {es : List Expr}, (∀ l ∈ Expr.linesAll es, L l) →
    Located L false (fun _ => True) (Exec.evaluateAll p.evaluate es)
  | [], _ => pure trivial
  | e :: es, hes => by
    simp only [Expr.linesAll, List.forall_mem_append] at hes
    exact (h.evaluate hes.1).bind fun _ _ => (evaluateAll hes.2).bind fun _ _ => pure trivial

theorem evaluateList {es : List Expr} (hes : ∀ l ∈ Expr.linesAll es, L l) :
    Located L false (fun _ => True) (Exec.evaluateList p.evaluate es) := by
  have elements : ∀ {es : List Expr}, (∀ l ∈ Expr.linesAll es, L l) →
      Located L false (fun _ => True) (Exec.evaluateElements p.evaluate es) := by
    intro es
    induction es with
    | nil => exact fun _ => pure trivial
    | cons e es ih =>
      intro hes
      simp only [Expr.linesAll, List.forall_mem_append] at hes
      exact (h.evaluate hes.1).bind fun _ _ => (copyCell _).bind fun _ _ =>
        (ih hes.2).bind fun _ _ => pure trivial
  exact (elements hes).bind fun _ _ => newList _

theorem evaluateNew (typeName : String) {arguments : List Expr} {line : Nat}
    (ha : ∀ l ∈ Expr.linesAll arguments, L l) (hl : L line) :
    Located L false (fun _ => True) (Exec.evaluateNew p typeName arguments line) := by
  have hl : LineIn L false (some line) := hl
  refine (findType? typeName).bind fun t ht => ?_
  split
  · exact fail hl
  · next t =>
    split
    · exact fail hl
    · refine (newObject (ht t rfl)).bind fun obj _ => (h.evaluateAll ha).bind fun args _ =>
        (method? obj typeName).bind fun m _ => ?_
      split
      · exact (h.callCell _ _ hl).bind fun _ _ => pure trivial
      · split
        · exact pure trivial
        · exact fail hl

theorem evaluateWith {e : Expr} (he : ∀ l ∈ e.lines, L l) :
    Located L false (fun _ => True) (Exec.evaluateWith p e) := by
  cases e with
  | integer | real | string | boolean | undefined => exact newCell trivial
  | color es line =>
    simp only [Expr.lines, List.forall_mem_cons] at he
    obtain ⟨hl, hes⟩ := he
    have hl : LineIn L false (some line) := hl
    exact (h.evaluateAll hes).bind fun _ _ => (colorOf _ hl).bind fun _ _ => newColor _
  | vector x y line =>
    simp only [Expr.lines, List.forall_mem_cons, List.forall_mem_append] at he
    obtain ⟨hl, hx, hy⟩ := he
    have hl : LineIn L false (some line) := hl
    exact (h.evaluate hx).bind fun _ _ => (asReal _ hl).bind fun _ _ =>
      (h.evaluate hy).bind fun _ _ => (asReal _ hl).bind fun _ _ => newVector _
  | list es line =>
    simp only [Expr.lines, List.forall_mem_cons] at he
    exact h.evaluateList he.2
  | name name use line => exact evaluateName name use (he line List.mem_cons_self)
  | member target name use line =>
    simp only [Expr.lines, List.forall_mem_cons] at he
    exact (h.evaluate he.2).bind fun _ _ => evaluateMember _ name use he.1
  | index target position use line =>
    simp only [Expr.lines, List.forall_mem_cons, List.forall_mem_append] at he
    obtain ⟨hl, ht, hp⟩ := he
    have hl : LineIn L false (some line) := hl
    exact (h.evaluate ht).bind fun _ _ => (h.evaluate hp).bind fun _ _ =>
      (asInteger _ hl).bind fun _ _ => element _ _ hl
  | call function arguments line =>
    simp only [Expr.lines, List.forall_mem_cons, List.forall_mem_append] at he
    obtain ⟨hl, hf, ha⟩ := he
    have hl : LineIn L false (some line) := hl
    exact (h.evaluate hf).bind fun _ _ => (h.evaluateAll ha).bind fun _ _ =>
      located hl (h.callCell _ _ hl.weaken)
  | new typeName arguments line =>
    simp only [Expr.lines, List.forall_mem_cons] at he
    exact h.evaluateNew typeName he.2 he.1
  | negate operand line =>
    simp only [Expr.lines, List.forall_mem_cons] at he
    exact (h.evaluate he.2).bind fun _ _ => negate _ he.1
  | not operand line =>
    simp only [Expr.lines, List.forall_mem_cons] at he
    have hl : LineIn L false (some line) := he.1
    exact (h.evaluate he.2).bind fun _ _ => (asBoolean _ hl).bind fun _ _ => newCell trivial
  | preIncrement operand direction line =>
    simp only [Expr.lines, List.forall_mem_cons] at he
    have hl : LineIn L false (some line) := he.1
    exact (h.evaluate he.2).bind fun _ _ => (increment _ _ hl).bind fun _ _ => pure trivial
  | postIncrement operand direction line =>
    simp only [Expr.lines, List.forall_mem_cons] at he
    have hl : LineIn L false (some line) := he.1
    exact (h.evaluate he.2).bind fun _ _ => (copyCell _).bind fun _ _ =>
      (increment _ _ hl).bind fun _ _ => pure trivial
  | arithmetic op lhs rhs line =>
    simp only [Expr.lines, List.forall_mem_cons, List.forall_mem_append] at he
    obtain ⟨hl, ha, hb⟩ := he
    exact (h.evaluate ha).bind fun _ _ => (h.evaluate hb).bind fun _ _ =>
      h.applyArithmetic _ _ _ hl
  | relational op lhs rhs line =>
    simp only [Expr.lines, List.forall_mem_cons, List.forall_mem_append] at he
    obtain ⟨hl, ha, hb⟩ := he
    exact (h.evaluate ha).bind fun _ _ => (h.evaluate hb).bind fun _ _ =>
      h.applyRelational _ _ _ hl
  | logical op lhs rhs line =>
    simp only [Expr.lines, List.forall_mem_cons, List.forall_mem_append] at he
    obtain ⟨hl, ha, hb⟩ := he
    have hl : LineIn L false (some line) := hl
    refine (h.evaluate ha).bind fun _ _ => (asBoolean _ hl).bind fun left _ => ?_
    split
    · exact newCell trivial
    · exact newCell trivial
    · exact (h.evaluate hb).bind fun _ _ => (asBoolean _ hl).bind fun _ _ => newCell trivial

/-! ### Statements -/

theorem holds {condition : Expr} {line : Nat} (hc : ∀ l ∈ condition.lines, L l) (hl : L line) :
    Located L false (fun _ => True) (Exec.holds p condition line) :=
  (h.evaluate hc).bind fun _ _ => asBoolean _ hl

theorem callIfMethod (obj : Cell) (name : String) {line : Nat} (hl : L line) :
    Located L false (fun _ => True) (Exec.callIfMethod p obj name line) := by
  have hl : LineIn L false (some line) := hl
  refine (method? obj name).bind fun m _ => ?_
  split
  · exact (h.callCell _ _ hl).bind fun _ _ => pure trivial
  · exact pure trivial

theorem realize (typeName : String) {body : List Stmt} {line : Nat}
    (hb : ∀ l ∈ Stmt.linesAll body, L l) (hl : L line) :
    Located L false (fun _ => True) (Exec.realize p typeName body line) := by
  refine (findType? typeName).bind fun t ht => ?_
  split
  · exact fail hl
  · next t =>
    exact (makeObject (ht t rfl)).bind fun r _ => bind (newCell trivial) fun obj _ =>
      (h.callIfMethod _ _ hl).bind fun _ _ =>
        (fillObject obj r (h.prepareAndRun hb)).bind fun _ _ =>
          (h.callIfMethod _ _ hl).bind fun _ _ => addAnonymous _

theorem executeWith (limit : Nat) {st : Stmt} (hst : ∀ l ∈ st.lines, L l) :
    Located L false (fun _ => True) (Exec.executeWith limit p st) := by
  cases st with
  | expression e =>
    simp only [Stmt.lines] at hst
    exact (h.evaluate hst).bind fun _ _ => pure trivial
  | assign target value line =>
    simp only [Stmt.lines, List.forall_mem_cons, List.forall_mem_append] at hst
    obtain ⟨hl, ht, hv⟩ := hst
    exact (h.evaluate hv).bind fun _ _ => (h.evaluate ht).bind fun _ _ => assign _ _ hl
  | update op target value line =>
    simp only [Stmt.lines, List.forall_mem_cons, List.forall_mem_append] at hst
    obtain ⟨hl, ht, hv⟩ := hst
    have hl : LineIn L false (some line) := hl
    exact (h.evaluate ht).bind fun _ _ => (h.evaluate hv).bind fun _ _ =>
      (h.applyArithmetic _ _ _ hl).bind fun _ _ => assign _ _ hl
  | realize typeName body line =>
    simp only [Stmt.lines, List.forall_mem_cons] at hst
    exact h.realize _ hst.2 hst.1
  | nop _ | function _ | classDef _ _ _ _ _ => exact pure trivial
  | «include» path body line =>
    simp only [Stmt.lines, List.forall_mem_cons] at hst
    exact h.run hst.2
  | block body line =>
    simp only [Stmt.lines, List.forall_mem_cons] at hst
    exact inBlock (h.prepareAndRun hst.2)
  | branch condition positive negative line =>
    simp only [Stmt.lines, List.forall_mem_cons, List.forall_mem_append] at hst
    obtain ⟨hl, ⟨hc, hp⟩, hn⟩ := hst
    refine (h.holds hc hl).bind fun b _ => ?_
    split
    · exact h.execute hp
    · split
      · exact h.execute hn
      · exact pure trivial
  | loop body line =>
    simp only [Stmt.lines, List.forall_mem_cons] at hst
    exact inBlock (loopBefore _ (pure trivial) (h.execute hst.2) (pure trivial))
  | whileLoop condition body line =>
    simp only [Stmt.lines, List.forall_mem_cons, List.forall_mem_append] at hst
    obtain ⟨hl, hc, hb⟩ := hst
    exact inBlock (loopBefore _ (h.holds hc hl) (h.execute hb) (pure trivial))
  | doWhile condition body line =>
    simp only [Stmt.lines, List.forall_mem_cons, List.forall_mem_append] at hst
    obtain ⟨hl, hc, hb⟩ := hst
    exact inBlock (loopAfter _ (h.holds hc hl) (h.execute hb))
  | forLoop init condition step body line =>
    simp only [Stmt.lines, List.forall_mem_cons, List.forall_mem_append] at hst
    obtain ⟨hl, ⟨⟨hi, hc⟩, hs⟩, hb⟩ := hst
    exact inBlock ((h.execute hi).bind fun _ _ =>
      loopBefore _ (h.holds hc hl) (h.execute hb) (h.execute hs))
  | «break» line => exact raise _
  | «continue» line => exact raise _
  | «return» value line =>
    simp only [Stmt.lines, List.forall_mem_cons] at hst
    have hl : LineIn L false (some line) := hst.1
    have finish (c : Cell) : Located L false (fun _ => True)
        (Exec.setReturn c (some line) >>= fun _ => Exec.raise .ofReturn) :=
      (setReturn c hl).bind fun _ _ => raise .ofReturn
    cases value with
    | none => exact bind (newCell trivial) fun c _ => finish c
    | some e => exact (h.evaluate hst.2).bind fun c _ => finish c
  | global name line =>
    exact ⟨fun s hs => ⟨trivial, mapTop hs _⟩⟩

end Interp.FailsIn

/-! ## All layers -/

/-- The interpreter of the language fails at lines of programs. -/
theorem located_withFuel (L : Nat → Prop) (host : Host) (n : Nat) :
    (Interp.withFuel host n).FailsIn L := by
  rw [Interp.withFuel_eq_tied]
  have idle {α : Type} {o : Bool} : Exec.Located L o (fun _ => True) (throw .outOfFuel : Exec α) :=
    .throw trivial
  induction n with
  | zero => exact ⟨fun _ => idle, fun _ => idle, Exec.Located.runAll fun _ => idle,
      fun _ _ _ _ => idle, fun _ _ _ => idle⟩
  | succ n ih => exact ⟨ih.evaluateWith, ih.executeWith n, Exec.Located.runAll (ih.executeWith n),
      ih.invokeWith host, ih.textWith n⟩

end CellScript
