import CellScript.Proofs.Parse.Cut
import CellScript.Parse.Script

/-!
# The parser on a source cut at a number

Every production is followed by itself on the cut source: it takes the same tokens, gives the same
tree, and fails for the same fault, up to the number at the cut. The bounds of the production on the
whole source may be lower than those on the cut one, which has more steps.

* `Parser.expression_retraces`, `Parser.statement_retraces`: by induction on the bound on nesting,
  with one lemma for each production;
* `Parser.program_retraces`: whole sources without includes, however included files would be read.
-/

namespace CellScript

namespace Parser

variable {c : Option LexError}

/-! ## Expressions -/

/-! ### Numbers -/

/-- What takes a number is followed at every number. -/
theorem follows_take {env : ParseEnv} {s : ParseState} (take : Token → Parser Expr)
    (hvalue : ∀ t, t.kind = s.reader.current.kind → t.fault? = none →
      ∃ e, take t = do advance; return e)
    (hfault : ∀ t f, t.kind = s.reader.current.kind → t.fault? = some f → take t = throw f) :
    Follows c (take s.reader.current) (take (s.cut c).reader.current) env s := by
  cases hf : s.reader.current.fault? with
  | none =>
    obtain ⟨e, he⟩ := hvalue _ rfl hf
    rw [Follows.cut_current hf, he]
    exact .bind (.advance hf) fun _ _ _ => .pure e
  | some f =>
    intro _
    have hfirst : s.reader.fault? = some f := by simp [Reader.fault?, hf]
    rw [hfault _ f rfl hf]
    refine .inr (.inr ?_)
    cases c with
    | none =>
      refine ⟨s, hfirst, ?_⟩
      change take s.reader.current env s = _
      rw [hfault _ f rfl hf]
      rfl
    | some x =>
      have hcut : s.reader.cut x = ⟨s.reader.current.zero, none, s.reader.stream.barred x⟩ := by
        simp [Reader.cut, hf]
      have hend : s.reader.current.kind ≠ .endOfSource := by
        intro hk
        rw [Token.fault?_of_kind (by simp [hk]) (by simp [hk])] at hf
        cases hf
      obtain ⟨e, he⟩ := hvalue s.reader.current.zero rfl (Token.fault?_zero _)
      have hbehind : (s.reader.stream.barred x).next = (.error x, ⟨s.reader.stream.steps.map
          fun _ => .error x, s.reader.stream.stop⟩) := rfl
      refine ⟨{ s with reader := ⟨s.reader.current.zero, none, ⟨s.reader.stream.steps.map
        fun _ => .error x, s.reader.stream.stop⟩⟩ }, hfirst, ?_⟩
      simp only [ParseState.cut_some, hcut, he]
      change EStateM.bind _ _ _ = _
      simp [EStateM.bind, advance, ofReader, Reader.advance, Token.zero, hend, Reader.pull,
        hbehind]

-- How a number is read does not matter from here on: only that both parsers read the same one.
attribute [local irreducible] Token.integerValue Token.realValue?

/-- What the parser makes of an integer. -/
def takeInteger (t : Token) : Parser Expr :=
  match t.integerValue with
  | .error f => throw (.notAnInteger t.value f)
  | .ok v => do
    advance
    return .integer v t.line

/-- What the parser makes of a real. -/
def takeReal (t : Token) : Parser Expr :=
  match t.realValue? with
  | none => throw (.notAReal t.value)
  | some v => do
    advance
    return .real v t.line

theorem follows_takeInteger {env : ParseEnv} {s : ParseState}
    (hk : s.reader.current.kind = .integer) :
    Follows c (takeInteger s.reader.current) (takeInteger (s.cut c).reader.current) env s := by
  refine follows_take takeInteger (fun t ht hf => ?_) fun t f ht hf => ?_
  all_goals
    simp only [Token.fault?, ht, hk] at hf
    unfold takeInteger
  · cases hv : t.integerValue with
    | ok v => exact ⟨_, rfl⟩
    | error f => simp [hv] at hf
  · cases hv : t.integerValue with
    | ok v => simp [hv] at hf
    | error g =>
      rw [hv] at hf
      cases hf
      rfl

theorem follows_takeReal {env : ParseEnv} {s : ParseState} (hk : s.reader.current.kind = .real) :
    Follows c (takeReal s.reader.current) (takeReal (s.cut c).reader.current) env s := by
  refine follows_take takeReal (fun t ht hf => ?_) fun t f ht hf => ?_
  all_goals
    simp only [Token.fault?, ht, hk] at hf
    unfold takeReal
  · cases hv : t.realValue? with
    | some v => exact ⟨_, rfl⟩
    | none => simp [hv] at hf
  · cases hv : t.realValue? with
    | some v => simp [hv] at hf
    | none =>
      simp only [hv, Option.isNone_none, if_true, Option.some.injEq] at hf
      rw [hf]

section

variable {item item' next next' unary unary' : Parser Expr} {n n' : Nat}

/-- The operators of a level are no numbers. -/
theorem isNumber_of_op? {O : Type} {op? : TokenKind → Option O} (h : op? .integer = none)
    (h' : op? .real = none) {kind : TokenKind} {op : O} (hop : op? kind = some op) :
    isNumber kind = false := by
  cases kind with
  | integer => simp [h] at hop
  | real => simp [h'] at hop
  | _ => rfl

theorem chain_retraces {O : Type} {op? : TokenKind → Option O}
    {build : O → Expr → Expr → Nat → Expr} (h : op? .integer = none) (h' : op? .real = none)
    (hnext : Retraces c next next') {turns turns' : Nat} (hle : turns ≤ turns') (lhs : Expr) :
    Retraces c (chain op? build next turns lhs) (chain op? build next' turns' lhs) := by
  induction turns generalizing turns' lhs with
  | zero => exact .throw _
  | succ turns ih =>
    obtain ⟨turns', rfl⟩ := Nat.exists_eq_succ_of_ne_zero (n := turns') (by omega)
    refine .current fun kind => ?_
    split
    · exact .pure _
    · next op hop =>
      exact .line fun l => .bind (.advance (isNumber_of_op? h h' hop)) fun _ =>
        .bind hnext fun rhs => ih (by omega) _

theorem moreItems_retraces (hitem : Retraces c item item') {turns turns' : Nat}
    (hle : turns ≤ turns') : Retraces c (moreItems item turns) (moreItems item' turns') := by
  induction turns generalizing turns' with
  | zero => exact .throw _
  | succ turns ih =>
    obtain ⟨turns', rfl⟩ := Nat.exists_eq_succ_of_ne_zero (n := turns') (by omega)
    refine .atMark .comma ?_ (.pure _)
    exact .bind (.advance rfl) fun _ => .bind hitem fun e => .bind (ih (by omega)) fun es => .pure _

theorem itemsUntil_retraces (close : Mark) (hitem : Retraces c item item') (hle : n ≤ n') :
    Retraces c (itemsUntil close item n) (itemsUntil close item' n') := by
  refine .atMark close (.bind (.advance rfl) fun _ => .pure _) ?_
  exact .bind hitem fun e => .bind (moreItems_retraces hitem hle) fun es =>
    .bind (.expect close) fun _ => .pure _

variable (hu : Retraces c unary unary') (hle : n ≤ n')

include hu hle

theorem productOf_retraces : Retraces c (productOf unary n) (productOf unary' n') :=
  .bind hu fun _ => chain_retraces rfl rfl hu hle _

theorem sumOf_retraces : Retraces c (sumOf unary n) (sumOf unary' n') :=
  .bind (productOf_retraces hu hle) fun _ =>
    chain_retraces rfl rfl (productOf_retraces hu hle) hle _

theorem relationOf_retraces : Retraces c (relationOf unary n) (relationOf unary' n') := by
  refine .bind (sumOf_retraces hu hle) fun lhs => .current fun kind => ?_
  split
  · exact .pure _
  · next op hop =>
    exact .line fun l => .bind (.advance (isNumber_of_op? rfl rfl hop)) fun _ =>
      .bind (sumOf_retraces hu hle) fun _ => .pure _

theorem disjunctionOf_retraces : Retraces c (disjunctionOf unary n) (disjunctionOf unary' n') :=
  .bind (relationOf_retraces hu hle) fun _ =>
    chain_retraces rfl rfl (relationOf_retraces hu hle) hle _

theorem expressionOf_retraces : Retraces c (expressionOf unary n) (expressionOf unary' n') :=
  .bind (disjunctionOf_retraces hu hle) fun _ =>
    chain_retraces rfl rfl (disjunctionOf_retraces hu hle) hle _

theorem colorOf_retraces : RetracesAt c (.mark .bar) (colorOf unary n) (colorOf unary' n') := by
  have sum := sumOf_retraces hu hle
  have close (cs : List Expr) (l : Nat) : Retraces c
      (do expect .bar; return Expr.color cs l) (do expect .bar; return Expr.color cs l) :=
    .bind (.expect .bar) fun _ => .pure _
  refine .line fun l => .bind (.advance rfl) fun _ => .bind sum fun first => ?_
  refine .atMark .comma ?_ (close _ l)
  refine .bind (.advance rfl) fun _ => .bind sum fun second => .bind (.expect .comma) fun _ =>
    .bind sum fun third => .atMark .comma ?_ (close _ l)
  exact .bind (.advance rfl) fun _ => .bind sum fun fourth => close _ l

theorem vectorOf_retraces : RetracesAt c (.mark .less) (vectorOf unary n) (vectorOf unary' n') :=
  .line fun _ => .bind (.advance rfl) fun _ => .bind (sumOf_retraces hu hle) fun _ =>
    .bind (.expect .comma) fun _ => .bind (sumOf_retraces hu hle) fun _ =>
    .bind (.expect .greater) fun _ => .pure _

theorem primaryOf_retraces : Retraces c (primaryOf unary n) (primaryOf unary' n') := by
  have items (close : Mark) := itemsUntil_retraces close (expressionOf_retraces hu hle) hle
  intro env s
  by_cases hnum : isNumber s.reader.current.kind = true
  · have hkind : s.reader.current.kind = .integer ∨ s.reader.current.kind = .real := by
      simpa [isNumber] using hnum
    refine .token ?_
    dsimp only
    rcases hkind with hk | hk <;> rw [cut_kind, hk]
    · exact follows_takeInteger hk
    · exact follows_takeReal hk
  · rw [Bool.not_eq_true] at hnum
    refine RetracesAt.token hnum (fun t ht => ?_) env s rfl
    rw [ht]
    generalize s.reader.current.kind = kind at hnum
    cases kind with
    | integer | real => cases hnum
    | string => exact .bind (.advance rfl) fun _ => .pure _
    | ident => exact .bind (.advance rfl) fun _ => .pure _
    | keyword k =>
      cases k with
      | «true» | «false» | undefined => exact .bind (.advance rfl) fun _ => .pure _
      | new =>
        refine .bind (.advance rfl) fun _ => .bind (.expectName _) fun name =>
          .atMark .leftParen ?_ (.pure _)
        exact .bind (.advance rfl) fun _ => .bind (items _) fun es => .pure _
      | _ => exact .fail _
    | mark m =>
      cases m with
      | bar => exact colorOf_retraces hu hle
      | less => exact vectorOf_retraces hu hle
      | leftBracket => exact .bind (.advance rfl) fun _ => .bind (items _) fun es => .pure _
      | leftParen =>
        exact .bind (.advance rfl) fun _ => .bind (expressionOf_retraces hu hle) fun e =>
          .bind (.expect _) fun _ => .pure _
      | _ => exact .fail _
    | _ => exact .fail _

omit hu in
theorem selectors_retraces {expression expression' : Parser Expr}
    (hexpr : Retraces c expression expression') {turns turns' : Nat} (hturns : turns ≤ turns')
    (e : Expr) :
    Retraces c (selectors expression n turns e) (selectors expression' n' turns' e) := by
  induction turns generalizing turns' e with
  | zero => exact .throw _
  | succ turns ih =>
    obtain ⟨turns', rfl⟩ := Nat.exists_eq_succ_of_ne_zero (n := turns') (by omega)
    refine .line fun l => .current fun kind => ?_
    split
    · exact .bind (.advance rfl) fun _ => .bind (.expectName _) fun name => ih (by omega) _
    · exact .bind (.advance rfl) fun _ => .bind hexpr fun i => .bind (.expect _) fun _ =>
        ih (by omega) _
    · exact .bind (.advance rfl) fun _ => .bind (itemsUntil_retraces _ hexpr hle) fun es =>
        ih (by omega) _
    · exact .pure _

theorem suffixedOf_retraces : Retraces c (suffixedOf unary n) (suffixedOf unary' n') := by
  refine .bind (primaryOf_retraces hu hle) fun first =>
    .bind (selectors_retraces hle (expressionOf_retraces hu hle) hle first) fun e =>
    .current fun kind => ?_
  split
  · next d hd =>
    split
    · exact .line fun l => .bind (.advance (isNumber_of_op? rfl rfl hd)) fun _ => .pure _
    · exact .pure _
  · exact .pure _

end

theorem unary_retraces {n n' : Nat} (hle : n ≤ n') : Retraces c (unary n) (unary n') := by
  induction n generalizing n' with
  | zero => exact .throw _
  | succ n ih =>
    obtain ⟨n', rfl⟩ := Nat.exists_eq_succ_of_ne_zero (n := n') (by omega)
    have hle : n ≤ n' := by omega
    have inner := ih hle
    refine .line fun l => .current fun kind => ?_
    split
    · exact .bind (.advance rfl) fun _ => inner
    · exact .bind (.advance rfl) fun _ => .bind inner fun e => .pure _
    · exact .bind (.advance rfl) fun _ => .bind inner fun e => .pure _
    · split
      · next d hd =>
        refine .bind (.advance (isNumber_of_op? rfl rfl hd)) fun _ =>
          .bind (suffixedOf_retraces inner hle) fun e => ?_
        split
        · exact .pure _
        · exact .fail _
      · exact .of (suffixedOf_retraces inner hle)

theorem expression_retraces {n n' : Nat} (hle : n ≤ n') :
    Retraces c (expression n) (expression n') :=
  expressionOf_retraces (unary_retraces hle) hle

/-! ## Statements -/

section

variable {n n' : Nat} (hle : n ≤ n')

include hle

theorem simpleStatement_retraces : Retraces c (simpleStatement n) (simpleStatement n') := by
  have expr := expression_retraces (c := c) hle
  have assigned {kind : TokenKind} (hkind : isNumber kind = false) (node : Expr → Stmt) :
      RetracesAt c kind (do advance; let value ← expression n; return node value)
        (do advance; let value ← expression n'; return node value) :=
    .bind (.advance hkind) fun _ => .bind expr fun value => .pure _
  refine .bind expr fun target => .current fun kind => ?_
  split
  · next op hop =>
    refine .line fun l => ?_
    split
    · exact .fail_bind _ _ _
    · exact assigned (isNumber_of_op? rfl rfl hop) _
  · split
    · next hassign =>
      rw [eq_of_beq hassign]
      refine .line fun l => ?_
      split
      · exact .fail_bind _ _ _
      · exact assigned rfl _
    · exact .pure _

theorem returnStatement_retraces :
    RetracesAt c (.keyword .return) (returnStatement n) (returnStatement n') := by
  have close (l : Nat) (value : Option Expr) : Retraces c
      (do expect .semicolon; return Stmt.return value l)
      (do expect .semicolon; return Stmt.return value l) :=
    .bind (.expect _) fun _ => .pure _
  refine .line fun l => .bind (.advance rfl) fun _ => .atMark .semicolon ?_ ?_
  · exact .of (.bind (.pure _) (close l))
  · exact .bind (expression_retraces hle) fun e => .bind (.pure _) (close l)

omit hle in
theorem globalStatement_retraces :
    RetracesAt c (.keyword .global) globalStatement globalStatement :=
  .line fun _ => .bind (.advance rfl) fun _ => .bind (.expectName _) fun _ =>
    .bind (.expect _) fun _ => .pure _

omit hle in
theorem jumpStatement_retraces (k : Keyword) (outside : ParseCause) (node : Nat → Stmt) :
    RetracesAt c (.keyword k) (jumpStatement outside node) (jumpStatement outside node) := by
  intro env s hk
  refine .read ?_
  split
  · exact RetracesAt.fail_bind _ _ _ env s hk
  · exact RetracesAt.line (fun l => .bind (.advance rfl) fun _ => .bind (.expect _) fun _ =>
      .pure (node l)) env s hk

theorem conditionOf_retraces : Retraces c (conditionOf n) (conditionOf n') :=
  .bind (.expect _) fun _ => .bind (expression_retraces hle) fun _ =>
    .bind (.expect _) fun _ => .pure _

theorem forPart_retraces (close : Mark) (l : Nat) :
    Retraces c (forPart close l n) (forPart close l n') :=
  .atMark close (.pure _) (simpleStatement_retraces hle)

theorem forCondition_retraces (l : Nat) : Retraces c (forCondition l n) (forCondition l n') :=
  .atMark .semicolon (.pure _) (.bind (expression_retraces hle) fun _ => .pure _)

/-! ### Definitions -/

omit hle in
theorem functionName_retraces : Retraces c functionName functionName := by
  refine .bind (.expectName _) fun name => ?_
  split
  · refine .current fun kind => ?_
    split
    · next symbol hsymbol =>
      exact .bind (.advance (isNumber_of_op? rfl rfl hsymbol)) fun _ => .pure _
    · exact .pure _
  · exact .pure _

theorem moreParameters_retraces (before : List String) :
    Retraces c (moreParameters n before) (moreParameters n' before) := by
  induction n generalizing n' before with
  | zero => exact .throw _
  | succ n ih =>
    obtain ⟨n', rfl⟩ := Nat.exists_eq_succ_of_ne_zero (n := n') (by omega)
    refine .atMark .comma ?_ (.pure _)
    refine .bind (.advance rfl) fun _ => .bind (.expectName _) fun name => ?_
    split
    · exact .bind (.fail _) fun _ => ih (by omega) _
    · exact ih (by omega) _

theorem parameters_retraces : Retraces c (parameters n) (parameters n') := by
  refine .current fun kind => ?_
  split
  · exact .of (.bind (.expectName _) fun name => moreParameters_retraces hle _)
  · exact .pure _

variable {inner inner' : Parser (Option Stmt)} (hi : Retraces c inner inner')

include hi

theorem statementsOf_retraces : Retraces c (statementsOf inner n) (statementsOf inner' n') := by
  induction n generalizing n' with
  | zero => exact .throw _
  | succ n ih =>
    obtain ⟨n', rfl⟩ := Nat.exists_eq_succ_of_ne_zero (n := n') (by omega)
    refine .current fun kind => ?_
    split
    · exact .of (.bind hi fun st => .bind (ih (by omega)) fun ss => .pure _)
    · exact .pure _

theorem bracedOf_retraces : Retraces c (bracedOf inner n) (bracedOf inner' n') :=
  .bind (.expect _) fun _ => .bind (statementsOf_retraces hle hi) fun _ =>
    .bind (.expect _) fun _ => .pure _

omit hle in
theorem bodyOf_retraces : Retraces c (bodyOf inner) (bodyOf inner') := by
  refine .current fun kind => ?_
  split
  · refine .of (.bind hi fun o => ?_)
    cases o with
    | some st => exact .pure _
    | none => exact .line fun l => .pure _
  · exact .fail _

omit hle in
theorem loopBodyOf_retraces : Retraces c (loopBodyOf inner) (loopBodyOf inner') :=
  .withLoop true (bodyOf_retraces hi)

theorem ifStatement_retraces :
    RetracesAt c (.keyword .if) (ifStatement inner n) (ifStatement inner' n') := by
  refine .line fun l => .bind (.advance rfl) fun _ => .bind (conditionOf_retraces hle) fun _ =>
    .bind (bodyOf_retraces hi) fun _ => .current fun kind => ?_
  split
  · next helse =>
    rw [eq_of_beq helse]
    exact .bind (.advance rfl) fun _ => .bind (bodyOf_retraces hi) fun _ => .pure _
  · exact .pure _

theorem whileStatement_retraces :
    RetracesAt c (.keyword .while) (whileStatement inner n) (whileStatement inner' n') :=
  .line fun _ => .bind (.advance rfl) fun _ => .bind (conditionOf_retraces hle) fun _ =>
    .bind (loopBodyOf_retraces hi) fun _ => .pure _

theorem doStatement_retraces :
    RetracesAt c (.keyword .do) (doStatement inner n) (doStatement inner' n') := by
  refine .line fun l => .bind (.advance rfl) fun _ => .bind (loopBodyOf_retraces hi) fun body =>
    .current fun kind => ?_
  split
  · exact .fail_bind _ _ _
  · next hwhile =>
    have hkind : kind = .keyword .while := by simpa using hwhile
    rw [hkind]
    refine .bind (.advance rfl) fun _ => .bind (conditionOf_retraces hle) fun condition =>
      .atMark .semicolon ?_ (.pure _)
    exact .bind (.advance rfl) fun _ => .pure _

omit hle in
theorem loopStatement_retraces :
    RetracesAt c (.keyword .loop) (loopStatement inner) (loopStatement inner') :=
  .line fun _ => .bind (.advance rfl) fun _ => .bind (loopBodyOf_retraces hi) fun _ => .pure _

theorem forStatement_retraces :
    RetracesAt c (.keyword .for) (forStatement inner n) (forStatement inner' n') :=
  .line fun l => .bind (.advance rfl) fun _ => .bind (.expect _) fun _ =>
    .bind (forPart_retraces hle _ l) fun _ => .bind (.expect _) fun _ =>
    .bind (forCondition_retraces hle l) fun _ => .bind (.expect _) fun _ =>
    .bind (forPart_retraces hle _ l) fun _ => .bind (.expect _) fun _ =>
    .bind (loopBodyOf_retraces hi) fun _ => .pure _

theorem functionOf_retraces :
    RetracesAt c (.keyword .function) (functionOf inner n) (functionOf inner' n') :=
  .line fun _ => .bind (.advance rfl) fun _ => .bind functionName_retraces fun _ =>
    .bind (.expect _) fun _ => .bind (parameters_retraces hle) fun _ => .bind (.expect _) fun _ =>
    .line fun _ => .bind (.withLoop false (bracedOf_retraces hle hi)) fun _ =>
    .bind .freshId fun _ => .pure _

theorem methodsOf_retraces {turns turns' : Nat} (hturns : turns ≤ turns')
    (before : List (FunctionDef Stmt)) :
    Retraces c (methodsOf inner n turns before) (methodsOf inner' n' turns' before) := by
  induction turns generalizing turns' before with
  | zero => exact .throw _
  | succ turns ih =>
    obtain ⟨turns', rfl⟩ := Nat.exists_eq_succ_of_ne_zero (n := turns') (by omega)
    refine .current fun kind => ?_
    split
    · next hfunction =>
      rw [eq_of_beq hfunction]
      refine .bind (functionOf_retraces hle hi) fun f => ?_
      split
      · exact .bind (.failAt _ _) fun _ => ih (by omega) _
      · exact ih (by omega) _
    · exact .pure _

theorem classOf_retraces {kind : TokenKind} (hkind : isNumber kind = false) :
    RetracesAt c kind (classOf inner n) (classOf inner' n') := by
  refine .line fun l => .current (.bind (.advance hkind) fun _ => .bind (.expectName _) fun name =>
    .bind (.expect _) fun _ => .bind (methodsOf_retraces hle hi hle []) fun methods => ?_)
  refine .atMark .rightBrace ?_ fun env s => RetracesAt.fail_bind _ _ _ env s rfl
  exact .bind (.advance rfl) fun _ => .bind .freshId fun _ => .pure _

theorem realizationOf_retraces : Retraces c (realizationOf inner n) (realizationOf inner' n') :=
  .line fun _ => .bind (.expectName _) fun _ =>
    .bind (.withLoop false (bracedOf_retraces hle hi)) fun _ => .pure _

/-! ### Whole sources -/

omit hle hi in
/-- The word of an include with anything but a string behind it. -/
theorem includeStatement_retraces (load load' : String → Parser (List Stmt)) :
    RetracesAt c (.keyword .include) (includeStatement load) (includeStatement load') := by
  intro env s hk
  refine .line ?_
  intro hfree
  refine Follows.bind (.advance (fault?_of_isNumber (by rw [hk]; rfl))) (fun _ t ht => ?_) hfree
  have hstring : t.reader.current.kind ≠ .string := by
    unfold advance ofReader at ht
    split at ht
    · next r hr =>
      cases ht
      exact Reader.advance_ne_string hfree hk hr
    · cases ht
  refine .token ?_
  rw [if_pos (by simpa using hstring), if_pos (by simpa [cut_kind] using hstring)]
  exact RetracesAt.fail_bind _ _ _ env t rfl

theorem statementOf_retraces (load load' : String → Parser (List Stmt)) :
    Retraces c (statementOf load inner n) (statementOf load' inner' n') := by
  have one {kind : TokenKind} {p p' : Parser Stmt} (hp : RetracesAt c kind p p') :
      RetracesAt c kind (do return some (← p)) (do return some (← p')) :=
    .bind hp fun _ => .pure _
  have simple : Retraces c
      (do let s ← simpleStatement n; expect .semicolon; return some s)
      (do let s ← simpleStatement n'; expect .semicolon; return some s) :=
    .bind (simpleStatement_retraces hle) fun _ => .bind (.expect _) fun _ => .pure _
  refine .current fun kind => ?_
  cases kind with
  | keyword k =>
    cases k with
    | function => exact .bind (functionOf_retraces hle hi) fun _ => .pure _
    | «return» => exact one (returnStatement_retraces hle)
    | global => exact one globalStatement_retraces
    | «if» => exact one (ifStatement_retraces hle hi)
    | «while» => exact one (whileStatement_retraces hle hi)
    | «do» => exact one (doStatement_retraces hle hi)
    | «for» => exact one (forStatement_retraces hle hi)
    | loop => exact one (loopStatement_retraces hi)
    | «break» => exact one (jumpStatement_retraces _ _ _)
    | «continue» => exact one (jumpStatement_retraces _ _ _)
    | classDef => exact one (classOf_retraces hle hi rfl)
    | «instant» => exact one (classOf_retraces hle hi rfl)
    | «include» => exact one (includeStatement_retraces load load')
    | _ => exact .of simple
  | mark m =>
    cases m with
    | semicolon => exact .bind (.advance rfl) fun _ => .pure _
    | leftBrace => exact .line fun l => .bind (.of (bracedOf_retraces hle hi)) fun _ => .pure _
    | _ => exact .of simple
  | ident =>
    refine .bind (.isBlockStartAhead rfl) fun ahead => ?_
    split
    · exact .bind (realizationOf_retraces hle hi) fun _ => .pure _
    · exact simple
  | _ => exact .of simple

end

theorem statement_retraces (load load' : String → Parser (List Stmt)) {n n' : Nat}
    (hle : n ≤ n') : Retraces c (statement load n) (statement load' n') := by
  induction n generalizing n' with
  | zero => exact .throw _
  | succ n ih =>
    obtain ⟨n', rfl⟩ := Nat.exists_eq_succ_of_ne_zero (n := n') (by omega)
    exact statementOf_retraces (by omega) (ih (by omega)) load load'

/-- The bound of the cut source is not below that of the whole one. -/
theorem program_retraces (load load' : String → Parser (List Stmt)) :
    Retraces c (program load) (program load') := by
  intro env s
  refine .observe rfl rfl ?_
  have hle : s.reader.stream.steps.length + 3 ≤ (s.cut c).reader.stream.steps.length + 3 :=
    Nat.add_le_add_right (s.length_cut c) 3
  refine Retraces.bind (statementsOf_retraces hle (statement_retraces load load' hle))
    (fun ss => .current fun kind => ?_) env s
  split
  · exact .fail_bind _ _ _
  · exact .pure _

end Parser

end CellScript
