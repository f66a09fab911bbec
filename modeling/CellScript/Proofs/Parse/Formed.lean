import CellScript.Parse.Script
import CellScript.Proofs.Formed

/-!
# Parsed scripts are well formed

`Parser.Gives b Q p` says that what the parser `p` gives satisfies `Q`, when it stands in a loop or
not as `b` says. Expressions are given as they are read, with places as locations; what takes one as
an operand marks it. Statements are given as they have to stand where the parser does.

There is one lemma for each production. `unary` and `statement` close the two recursions by
induction on their bounds, and `load` goes by the depth of includes.

* `Script.Parsed`, `Script.Parsed.formed`: every node of a parsed script keeps to its rule;
* `Script.Parsed.closed`, `Script.Parsed.placed`: so its jumps have their loops, and its places are
  used as they are.
-/

namespace CellScript

namespace Parser

section

variable {α β : Type} {b : Bool} {P : α → Prop} {Q : β → Prop}

/-- What the parser gives satisfies `Q`, when it stands in a loop or not as `b` says. -/
def Gives (b : Bool) (Q : β → Prop) (p : Parser β) : Prop :=
  ∀ env s a s', env.inLoop = b → p env s = .ok a s' → Q a

namespace Gives

theorem pure {a : β} (h : Q a) : Gives b Q (pure a) := by
  intro env s a' s' _ he
  cases he
  exact h

theorem any (p : Parser β) : Gives b (fun _ => True) p := fun _ _ _ _ _ _ => trivial

theorem bind {p : Parser α} {f : α → Parser β} (hp : Gives b P p)
    (hf : ∀ a, P a → Gives b Q (f a)) : Gives b Q (p >>= f) := by
  intro env s c u hb he
  change EStateM.bind (p env) (fun a => f a env) s = .ok c u at he
  unfold EStateM.bind at he
  split at he
  · next a s' hp' => exact hf a (hp env s a s' hb hp') env s' c u hb he
  · cases he

/-- A parser whose own result does not matter. -/
theorem after (p : Parser α) {f : α → Parser β} (hf : ∀ a, Gives b Q (f a)) :
    Gives b Q (p >>= f) :=
  (any p).bind fun a _ => hf a

theorem read : Gives b (fun env => env.inLoop = b) read := by
  intro env s a s' hb he
  cases he
  exact hb

theorem throw (f : ParseFailure) : Gives b Q (throw f) := by
  intro env s a s' _ he
  cases he

theorem failAt (cause : ParseCause) (line : Nat) : Gives b Q (failAt cause line) := by
  intro env s a s' _ he
  cases he

theorem fail (cause : ParseCause) : Gives b Q (fail cause) := after _ fun _ => failAt _ _

/-- What stands behind a failure is not read. -/
theorem fail_bind (cause : ParseCause) (f : α → Parser β) : Gives b Q (Parser.fail cause >>= f) :=
  (fail (Q := fun _ => False) cause).bind fun _ h => h.elim

theorem failAt_bind (cause : ParseCause) (line : Nat) (f : α → Parser β) :
    Gives b Q (Parser.failAt cause line >>= f) :=
  (failAt (Q := fun _ => False) cause line).bind fun _ h => h.elim

theorem withLoop (c : Bool) {p : Parser β} (h : Gives c Q p) : Gives b Q (withLoop c p) :=
  fun env s a s' _ he => h { env with inLoop := c } s a s' rfl he

end Gives

end

variable {b : Bool}

/-! ## Expressions -/

/-- What the parser gives is an expression as it was read: a place is a location. -/
abbrev GivesRead (b : Bool) (p : Parser Expr) : Prop := Gives b (·.Formed .location) p

/-- What the parser gives are operands. -/
abbrev GivesOperands (b : Bool) (p : Parser (List Expr)) : Prop :=
  Gives b (fun es => ∀ e ∈ es, e.Formed .operand) p

section

variable {item next unary : Parser Expr} {n : Nat}

theorem chain_gives {O : Type} {op? : TokenKind → Option O} {build : O → Expr → Expr → Nat → Expr}
    (hbuild : ∀ op lhs rhs l, lhs.Formed .operand → rhs.Formed .operand →
      (build op lhs rhs l).Formed .location)
    (hnext : GivesRead b next) (turns : Nat) {lhs : Expr} (hlhs : lhs.Formed .location) :
    GivesRead b (chain op? build next turns lhs) := by
  induction turns generalizing lhs with
  | zero => exact .throw _
  | succ turns ih =>
    refine .after _ fun kind => ?_
    split
    · exact .pure hlhs
    · exact .after _ fun l => .after _ fun _ => hnext.bind fun rhs hrhs =>
        ih (hbuild _ _ _ l hlhs.asOperand hrhs.asOperand)

theorem moreItems_gives (hitem : GivesRead b item) (turns : Nat) :
    GivesOperands b (moreItems item turns) := by
  induction turns with
  | zero => exact .throw _
  | succ turns ih =>
    refine .after _ fun more => ?_
    split
    · exact .after _ fun _ => hitem.bind fun e he => ih.bind fun es hes =>
        .pure (List.forall_mem_cons.2 ⟨he.asOperand, hes⟩)
    · exact .pure nofun

theorem itemsUntil_gives (close : Mark) (hitem : GivesRead b item) (turns : Nat) :
    GivesOperands b (itemsUntil close item turns) := by
  refine .after _ fun atEnd => ?_
  split
  · exact .after _ fun _ => .pure nofun
  · exact hitem.bind fun e he => (moreItems_gives hitem turns).bind fun es hes =>
      .after _ fun _ => .pure (List.forall_mem_cons.2 ⟨he.asOperand, hes⟩)

variable (hu : GivesRead b unary)

include hu

theorem productOf_gives : GivesRead b (productOf unary n) :=
  hu.bind fun _ h => chain_gives (fun op _ _ _ hl hr => hl.arithmetic hr op) hu n h

theorem sumOf_gives : GivesRead b (sumOf unary n) :=
  (productOf_gives hu).bind fun _ h =>
    chain_gives (fun op _ _ _ hl hr => hl.arithmetic hr op) (productOf_gives hu) n h

theorem relationOf_gives : GivesRead b (relationOf unary n) := by
  refine (sumOf_gives hu).bind fun lhs hlhs => .after _ fun kind => ?_
  split
  · exact .pure hlhs
  · exact .after _ fun l => .after _ fun _ => (sumOf_gives hu).bind fun rhs hrhs =>
      .pure (hlhs.asOperand.relational hrhs.asOperand _)

theorem disjunctionOf_gives : GivesRead b (disjunctionOf unary n) :=
  (relationOf_gives hu).bind fun _ h =>
    chain_gives (fun op _ _ _ hl hr => hl.logical hr op) (relationOf_gives hu) n h

theorem expressionOf_gives : GivesRead b (expressionOf unary n) :=
  (disjunctionOf_gives hu).bind fun _ h =>
    chain_gives (fun op _ _ _ hl hr => hl.logical hr op) (disjunctionOf_gives hu) n h

/-- A color has its packed number, or three or four components. -/
theorem colorOf_gives : GivesRead b (colorOf unary n) := by
  have sum := sumOf_gives (n := n) hu
  have close (l : Nat) {cs : List Expr} (hlen : cs.length = 1 ∨ cs.length = 3 ∨ cs.length = 4)
      (hcs : ∀ c ∈ cs, c.Formed .location) :
      GivesRead b (do
        expect .bar
        return Expr.color (cs.map Expr.asOperand) l) := by
    refine .after _ fun _ => .pure (.node (by simpa [Expr.Sound] using hlen) ?_)
    simpa using fun c hc => (hcs c hc).asOperand
  refine .after _ fun l => .after _ fun _ => sum.bind fun first h₁ => .after _ fun more => ?_
  split
  · refine .after _ fun _ => sum.bind fun second h₂ => .after _ fun _ => sum.bind fun third h₃ =>
      .after _ fun more => ?_
    split
    · exact .after _ fun _ => sum.bind fun fourth h₄ => close l (by simp) (by simp [h₁, h₂, h₃, h₄])
    · exact close l (by simp) (by simp [h₁, h₂, h₃])
  · exact close l (by simp) (by simp [h₁])

theorem vectorOf_gives : GivesRead b (vectorOf unary n) :=
  .after _ fun _ => .after _ fun _ => (sumOf_gives hu).bind fun _ hx => .after _ fun _ =>
    (sumOf_gives hu).bind fun _ hy => .after _ fun _ =>
    .pure (.node trivial (by simp [hx.asOperand, hy.asOperand]))

theorem primaryOf_gives : GivesRead b (primaryOf unary n) := by
  have items (close : Mark) := itemsUntil_gives close (expressionOf_gives (n := n) hu) n
  have literal {e : Expr} (he : e.Formed .location) : GivesRead b (do advance; return e) :=
    .after _ fun _ => .pure he
  refine .after _ fun t => ?_
  dsimp only
  split
  · split
    · exact .throw _
    · exact literal (.node trivial nofun)
  · split
    · exact .throw _
    · exact literal (.node trivial nofun)
  · exact literal (.node trivial nofun)
  · exact literal (.node trivial nofun)
  · exact literal (.node trivial nofun)
  · exact literal (.node trivial nofun)
  · exact literal (.node rfl nofun)
  · refine .after _ fun _ => .after _ fun name => .after _ fun called => ?_
    split
    · exact .after _ fun _ => (items _).bind fun es hes =>
        .pure (.node trivial (by simpa using hes))
    · exact .pure (.node trivial nofun)
  · exact colorOf_gives hu
  · exact vectorOf_gives hu
  · exact .after _ fun _ => (items _).bind fun es hes =>
      .pure (.node trivial (by simpa using hes))
  · exact .after _ fun _ => (expressionOf_gives hu).bind fun e he => .after _ fun _ => .pure he
  · exact .fail _

omit hu in
theorem selectors_gives {expression : Parser Expr} (hexpr : GivesRead b expression)
    (bound turns : Nat) {e : Expr} (he : e.Formed .location) :
    GivesRead b (selectors expression bound turns e) := by
  induction turns generalizing e with
  | zero => exact .throw _
  | succ turns ih =>
    have operand := he.asOperand
    refine .after _ fun l => .after _ fun kind => ?_
    split
    · exact .after _ fun _ => .after _ fun name =>
        ih (.node rfl (by simpa using operand))
    · exact .after _ fun _ => hexpr.bind fun i hi => .after _ fun _ =>
        ih (.node rfl (by simp [operand, hi.asOperand]))
    · exact .after _ fun _ => (itemsUntil_gives _ hexpr bound).bind fun es hes =>
        ih (.node trivial (by simpa [operand] using hes))
    · exact .pure he

theorem suffixedOf_gives : GivesRead b (suffixedOf unary n) := by
  refine (primaryOf_gives hu).bind fun first hfirst =>
    (selectors_gives (expressionOf_gives hu) n n hfirst).bind fun e he => .after _ fun kind => ?_
  split
  · split
    · next hloc =>
      exact .after _ fun _ => .after _ fun _ => .pure (.node hloc (by simpa using he))
    · exact .pure he
  · exact .pure he

end

theorem unary_gives (n : Nat) : GivesRead b (unary n) := by
  induction n with
  | zero => exact .throw _
  | succ n ih =>
    refine .after _ fun l => .after _ fun kind => ?_
    split
    · exact .after _ fun _ => ih
    · exact .after _ fun _ => ih.bind fun e he =>
        .pure (.node trivial (by simpa using he.asOperand))
    · exact .after _ fun _ => ih.bind fun e he =>
        .pure (.node trivial (by simpa using he.asOperand))
    · split
      · refine .after _ fun _ => (suffixedOf_gives ih).bind fun e he => ?_
        split
        · next hloc => exact .pure (.node hloc (by simpa using he))
        · exact .fail _
      · exact suffixedOf_gives ih

theorem expression_gives (n : Nat) : GivesRead b (expression n) :=
  expressionOf_gives (unary_gives n)

/-! ## Statements -/

/-- What the parser gives is a statement that may stand where the parser does. -/
abbrev GivesFormed (b : Bool) (p : Parser Stmt) : Prop := Gives b (·.Formed b) p

/-- What the parser gives are statements that may stand where it does. -/
abbrev GivesAll (b : Bool) (p : Parser (List Stmt)) : Prop :=
  Gives b (fun ss => ∀ st ∈ ss, st.Formed b) p

/-- What the parser gives, if it gives one, is a statement that may stand where it does. -/
abbrev GivesOption (b : Bool) (p : Parser (Option Stmt)) : Prop :=
  Gives b (fun o => ∀ st ∈ o, st.Formed b) p

/-- A simple statement has no loop to ask for. -/
theorem simpleStatement_gives (n : Nat) :
    Gives b (fun st => st.isSimple = true ∧ ∀ c, st.Formed c) (simpleStatement n) := by
  refine (expression_gives n).bind fun target ht => .after _ fun kind => ?_
  split
  · refine .after _ fun l => ?_
    split
    · exact .fail_bind _ _
    · next hloc =>
      rw [Bool.not_eq_true', Bool.not_eq_false] at hloc
      exact .after _ fun _ => (expression_gives n).bind fun value hv => .pure ⟨rfl, fun c =>
        .node hloc (by simp [ht, hv.asOperand]) nofun⟩
  · split
    · refine .after _ fun l => ?_
      split
      · exact .fail_bind _ _
      · next hloc =>
        rw [Bool.not_eq_true', Bool.not_eq_false] at hloc
        exact .after _ fun _ => (expression_gives n).bind fun value hv => .pure ⟨rfl, fun c =>
          .node hloc (by simp [ht, hv.asOperand]) nofun⟩
    · exact .pure ⟨rfl, fun c => .node trivial (by simpa using ht) nofun⟩

theorem returnStatement_gives (n : Nat) : GivesFormed b (returnStatement n) := by
  have node (l : Nat) (value : Option Expr) (hv : ∀ e ∈ value, e.Formed .operand) :
      GivesFormed b (do
        expect .semicolon
        return Stmt.return value l) :=
    .after _ fun _ => .pure (.node trivial (by simpa using hv) nofun)
  refine .after _ fun l => .after _ fun _ => .after _ fun missing => ?_
  split
  · exact (Gives.pure (Q := fun o : Option Expr => ∀ e ∈ o, e.Formed .operand) (by simp)).bind
      (node l)
  · refine (expression_gives n).bind fun e he =>
      (Gives.pure (Q := fun o : Option Expr => ∀ e ∈ o, e.Formed .operand) ?_).bind (node l)
    simpa using he.asOperand

theorem globalStatement_gives : GivesFormed b globalStatement :=
  .after _ fun _ => .after _ fun _ => .after _ fun _ => .after _ fun _ =>
    .pure (.node trivial nofun nofun)

/-- A jump is read only in a loop. -/
theorem jumpStatement_gives (outside : ParseCause) {node : Nat → Stmt}
    (hn : ∀ l, (node l).Formed true) : GivesFormed b (jumpStatement outside node) := by
  refine Gives.read.bind fun env henv => ?_
  split
  · exact .fail_bind _ _
  · next h =>
    have hb : b = true := by simpa [henv] using h
    subst hb
    exact .after _ fun _ => .after _ fun _ => .after _ fun _ => .pure (hn _)

theorem conditionOf_gives (n : Nat) : Gives b (·.Formed .operand) (conditionOf n) :=
  .after _ fun _ => (expression_gives n).bind fun _ he => .after _ fun _ => .pure he.asOperand

theorem forPart_gives (close : Mark) (l n : Nat) :
    Gives b (fun st => st.isSimple = true ∧ ∀ c, st.Formed c) (forPart close l n) := by
  refine .after _ fun missing => ?_
  split
  · exact .pure ⟨rfl, fun c => .node trivial nofun nofun⟩
  · exact simpleStatement_gives n

theorem forCondition_gives (l n : Nat) : Gives b (·.Formed .operand) (forCondition l n) := by
  refine .after _ fun missing => ?_
  split
  · exact .pure (.node trivial nofun)
  · exact (expression_gives n).bind fun _ he => .pure he.asOperand

/-- An included file stands outside of all loops. -/
theorem includeStatement_gives {load : String → Parser (List Stmt)}
    (hl : ∀ b path, Gives b (fun ss => ∀ st ∈ ss, st.Formed false) (load path)) :
    GivesFormed b (includeStatement load) := by
  have node (path : String) (l : Nat) : GivesFormed b (do
      noteInclude path
      return Stmt.include path (← load path) l) :=
    .after _ fun _ => (hl b path).bind fun _ hss =>
      .pure (.node trivial nofun (by simpa using hss))
  refine .after _ fun l => .after _ fun _ => .after _ fun t => ?_
  split
  · exact .fail_bind _ _
  · refine .after _ fun _ => .after _ fun _ => .after _ fun env => ?_
    split
    · exact .failAt _ _
    · next path _ =>
      split
      · exact .failAt_bind _ _ _
      · exact node path l

/-! ## Definitions -/

theorem nodup_append_singleton {xs : List String} {x : String} (h : xs.Nodup) (hx : x ∉ xs) :
    (xs ++ [x]).Nodup :=
  List.nodup_append.2 ⟨h, by simp, fun _ ha _ hb hab =>
    hx (hab.trans (List.mem_singleton.1 hb) ▸ ha)⟩

/-- More parameters are different from those before them. -/
theorem moreParameters_gives (n : Nat) {before : List String} (hbefore : before.Nodup) :
    Gives b (·.Nodup) (moreParameters n before) := by
  induction n generalizing before with
  | zero => exact .throw _
  | succ n ih =>
    refine .after _ fun more => ?_
    split
    · refine .after _ fun _ => .after _ fun name => ?_
      split
      · exact .fail_bind _ _
      · next hnew =>
        rw [List.contains_iff_mem] at hnew
        exact ih (nodup_append_singleton hbefore hnew)
    · exact .pure hbefore

theorem parameters_gives (n : Nat) : Gives b (·.Nodup) (parameters n) := by
  refine .after _ fun kind => ?_
  split
  · exact .after _ fun name => moreParameters_gives n (by simp)
  · exact .pure List.nodup_nil

section

variable {inner : Parser (Option Stmt)} (hi : ∀ b, GivesOption b inner)

include hi

theorem statementsOf_gives (n : Nat) : GivesAll b (statementsOf inner n) := by
  induction n with
  | zero => exact .throw _
  | succ n ih =>
    refine .after _ fun kind => ?_
    split
    · exact (hi b).bind fun o ho => ih.bind fun ss hss =>
        .pure (List.forall_mem_append.2 ⟨by simpa using ho, hss⟩)
    · exact .pure nofun

theorem bracedOf_gives (n : Nat) : GivesAll b (bracedOf inner n) :=
  .after _ fun _ => (statementsOf_gives hi n).bind fun _ hss => .after _ fun _ => .pure hss

theorem bodyOf_gives : GivesFormed b (bodyOf inner) := by
  refine .after _ fun kind => ?_
  split
  · refine (hi b).bind fun o ho => ?_
    cases o with
    | some st => exact .pure (ho st rfl)
    | none => exact .after _ fun _ => .pure (.node trivial nofun nofun)
  · exact .fail _

theorem loopBodyOf_gives : Gives b (·.Formed true) (loopBodyOf inner) :=
  .withLoop true (bodyOf_gives hi)

theorem ifStatement_gives (n : Nat) : GivesFormed b (ifStatement inner n) := by
  refine .after _ fun l => .after _ fun _ => (conditionOf_gives n).bind fun condition hc =>
    (bodyOf_gives hi).bind fun positive hp => .after _ fun kind => ?_
  split
  · exact .after _ fun _ => (bodyOf_gives hi).bind fun negative hn =>
      .pure (.node trivial (by simpa using hc) (by simp [hp, hn]))
  · exact .pure (.node trivial (by simpa using hc) (by simpa using hp))

theorem whileStatement_gives (n : Nat) : GivesFormed b (whileStatement inner n) :=
  .after _ fun _ => .after _ fun _ => (conditionOf_gives n).bind fun _ hc =>
    (loopBodyOf_gives hi).bind fun _ hbody =>
    .pure (.node trivial (by simpa using hc) (by simpa using hbody))

theorem loopStatement_gives : GivesFormed b (loopStatement inner) :=
  .after _ fun _ => .after _ fun _ => (loopBodyOf_gives hi).bind fun _ hbody =>
    .pure (.node trivial nofun (by simpa using hbody))

theorem doStatement_gives (n : Nat) : GivesFormed b (doStatement inner n) := by
  refine .after _ fun l => .after _ fun _ => (loopBodyOf_gives hi).bind fun body hbody =>
    .after _ fun kind => ?_
  have rest : GivesFormed b (do
      advance
      let condition ← conditionOf n
      if ← atMark .semicolon then advance
      return Stmt.doWhile condition body l) := by
    refine .after _ fun _ => (conditionOf_gives n).bind fun condition hc =>
      .after _ fun atEnd => ?_
    have hst : (Stmt.doWhile condition body l).Formed b :=
      .node trivial (by simpa using hc) (by simpa using hbody)
    split
    · exact .after _ fun _ => .pure hst
    · exact .pure hst
  split
  · exact .fail_bind _ _
  · exact rest

theorem forStatement_gives (n : Nat) : GivesFormed b (forStatement inner n) := by
  refine .after _ fun l => .after _ fun _ => .after _ fun _ =>
    (forPart_gives _ l n).bind fun init hinit => .after _ fun _ =>
    (forCondition_gives l n).bind fun condition hc => .after _ fun _ =>
    (forPart_gives _ l n).bind fun step hstep => .after _ fun _ =>
    (loopBodyOf_gives hi).bind fun body hbody =>
    .pure (.node ⟨hinit.1, hstep.1⟩ (by simpa using hc) ?_)
  simp [hinit.2, hstep.2, hbody]

/-- A function with different parameters, and a body outside of loops. -/
abbrev FormedFunction (f : FunctionDef Stmt) : Prop :=
  f.parameters.Nodup ∧ ∀ st ∈ f.body, st.Formed false

theorem functionOf_gives (n : Nat) : Gives b FormedFunction (functionOf inner n) :=
  .after _ fun _ => .after _ fun _ => .after _ fun _ => .after _ fun _ =>
    (parameters_gives n).bind fun _ hps => .after _ fun _ => .after _ fun _ =>
    (Gives.withLoop false (bracedOf_gives hi n)).bind fun _ hbody => .after _ fun _ =>
    .pure ⟨hps, hbody⟩

/-- Methods are different by name from those before them. -/
theorem methodsOf_gives (bound n : Nat) {before : List (FunctionDef Stmt)}
    (hnames : (before.map (·.name)).Nodup) (hall : ∀ f ∈ before, FormedFunction f) :
    Gives b (fun fs => (fs.map (·.name)).Nodup ∧ ∀ f ∈ fs, FormedFunction f)
      (methodsOf inner bound n before) := by
  induction n generalizing before with
  | zero => exact .throw _
  | succ n ih =>
    refine .after _ fun kind => ?_
    split
    · refine (functionOf_gives hi bound).bind fun f hf => ?_
      split
      · exact .failAt_bind _ _ _
      · next hnew =>
        have hnames : ((before ++ [f]).map (·.name)).Nodup := by
          rw [List.map_append]
          exact nodup_append_singleton hnames (by simpa using hnew)
        exact ih hnames (List.forall_mem_append.2 ⟨hall, List.forall_mem_singleton.2 hf⟩)
    · exact .pure ⟨hnames, hall⟩

theorem classOf_gives (n : Nat) : GivesFormed b (classOf inner n) := by
  refine .after _ fun l => .after _ fun kind => .after _ fun _ => .after _ fun name =>
    .after _ fun _ => (methodsOf_gives hi n n (by simp) (by simp)).bind
    fun methods hm => .after _ fun atEnd => ?_
  split
  · exact .fail_bind _ _
  · refine .after _ fun _ => .after _ fun id =>
      .pure (.node ⟨hm.1, fun f hf => (hm.2 f hf).1⟩ nofun ?_)
    intro s hs
    obtain ⟨f, hf, hbody⟩ := List.mem_flatMap.1 hs
    obtain ⟨st, hst, rfl⟩ := List.mem_map.1 hbody
    exact (hm.2 f hf).2 st hst

theorem realizationOf_gives (n : Nat) : GivesFormed b (realizationOf inner n) :=
  .after _ fun _ => .after _ fun _ =>
    (Gives.withLoop false (bracedOf_gives hi n)).bind fun _ hbody =>
      .pure (.node trivial nofun (by simpa using hbody))

/-! ## Whole sources -/

theorem statementOf_gives {load : String → Parser (List Stmt)}
    (hl : ∀ b path, Gives b (fun ss => ∀ st ∈ ss, st.Formed false) (load path)) (n : Nat) :
    GivesOption b (statementOf load inner n) := by
  have given {st : Stmt} (hst : st.Formed b) : GivesOption b (pure (some st)) :=
    .pure (by simpa using hst)
  have one {p : Parser Stmt} (hp : GivesFormed b p) : GivesOption b (do return some (← p)) :=
    hp.bind fun _ => given
  have simple : GivesOption b (do
      let st ← simpleStatement n
      expect .semicolon
      return some st) :=
    (simpleStatement_gives n).bind fun st hst => .after _ fun _ => given (hst.2 b)
  refine .after _ fun kind => ?_
  split
  · exact .after _ fun _ => .pure (by simp)
  · exact .after _ fun _ => (bracedOf_gives hi n).bind fun ss hss =>
      given (.node trivial nofun (by simpa using hss))
  · exact (functionOf_gives hi n).bind fun f hf =>
      given (.node hf.1 nofun (by simpa using hf.2))
  · exact one (returnStatement_gives n)
  · exact one globalStatement_gives
  · exact one (ifStatement_gives hi n)
  · exact one (whileStatement_gives hi n)
  · exact one (doStatement_gives hi n)
  · exact one (forStatement_gives hi n)
  · exact one (loopStatement_gives hi)
  · exact one (jumpStatement_gives _ fun _ => .node rfl nofun nofun)
  · exact one (jumpStatement_gives _ fun _ => .node rfl nofun nofun)
  · exact one (classOf_gives hi n)
  · exact one (classOf_gives hi n)
  · exact one (includeStatement_gives hl)
  · split
    · refine .after _ fun ahead => ?_
      split
      · exact one (realizationOf_gives hi n)
      · exact simple
    · exact simple

end

theorem statement_gives {load : String → Parser (List Stmt)}
    (hl : ∀ b path, Gives b (fun ss => ∀ st ∈ ss, st.Formed false) (load path)) (n : Nat) :
    ∀ b, GivesOption b (statement load n) := by
  induction n with
  | zero => exact fun _ => .throw _
  | succ n ih => exact fun _ => statementOf_gives ih hl n

theorem program_gives {load : String → Parser (List Stmt)}
    (hl : ∀ b path, Gives b (fun ss => ∀ st ∈ ss, st.Formed false) (load path)) :
    GivesAll b (program load) := by
  refine .after _ fun n => (statementsOf_gives (statement_gives hl n) n).bind fun ss hss =>
    .after _ fun kind => ?_
  split
  · exact .fail_bind _ _
  · exact .pure hss

/-- What an included file gives does not depend on where the include stands. -/
theorem load_gives (depth : Nat) :
    ∀ b path, Gives b (fun ss => ∀ st ∈ ss, st.Formed false) (load depth path) := by
  induction depth with
  | zero => exact fun _ _ => .throw _
  | succ depth ih =>
    intro b path env s ss s' _ he
    unfold load insideFile at he
    split at he
    · cases he
    · dsimp only at he
      split at he
      · next hp =>
        cases he
        exact program_gives ih _ _ _ _ rfl hp
      · cases he

theorem formed_of_run {sources : Sources} {unit : Nat} {path : Option String}
    {including : List String} {text : Except ParseFailure (List Char)} {script : Script}
    (h : (run sources unit path including text).result = .ok script) :
    ∀ st ∈ script.statements, st.Formed false := by
  unfold run at h
  split at h
  · cases h
  · dsimp only at h
    split at h
    · next hp =>
      cases h
      exact program_gives (load_gives _) _ _ _ _ rfl hp
    · cases h

end Parser

/-- The script was read from a text or from a file. -/
def Script.Parsed (script : Script) : Prop :=
  (∃ sources unit path text, (parseText sources unit path text).result = .ok script) ∨
    ∃ sources unit path, (parseFile sources unit path).result = .ok script

theorem Script.Parsed.formed {script : Script} (h : script.Parsed) :
    ∀ st ∈ script.statements, st.Formed false := by
  rcases h with ⟨_, _, _, _, h⟩ | ⟨_, _, _, h⟩
  · exact Parser.formed_of_run h
  · unfold parseFile at h
    exact Parser.formed_of_run h

theorem Script.Parsed.closed {script : Script} (h : script.Parsed) :
    Stmt.closedAll false script.statements = true :=
  Stmt.closedAll_iff.2 fun st hst => (h.formed st hst).closed

theorem Script.Parsed.placed {script : Script} (h : script.Parsed) :
    Stmt.placedAll script.statements = true :=
  Stmt.placedAll_iff.2 fun st hst => (h.formed st hst).placed

/-- A script that was read from a text is closed. -/
theorem closedAll_of_parseText {sources : Sources} {unit : Nat} {path : Option String}
    {text : String} {script : Script}
    (h : (parseText sources unit path text).result = .ok script) :
    Stmt.closedAll false script.statements = true :=
  Script.Parsed.closed (.inl ⟨_, _, _, _, h⟩)

/-- A script that was read from a file is closed. -/
theorem closedAll_of_parseFile {sources : Sources} {unit : Nat} {path : String} {script : Script}
    (h : (parseFile sources unit path).result = .ok script) :
    Stmt.closedAll false script.statements = true :=
  Script.Parsed.closed (.inr ⟨_, _, _, h⟩)

end CellScript
