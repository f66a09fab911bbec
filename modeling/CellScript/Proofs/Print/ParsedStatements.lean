import CellScript.Proofs.Print.Parsed

/-!
# Parsed statements can be printed

In a text without reals and includes every statement that the parser gives is canonical. Behind a
statement that ends with an open `if` the current token is no `else`, since that `if` would have
taken it: this is what makes the first way of an `if` with an `else` a statement that ends closed.

* `Stmt.ReadUpTo`: what is known of a statement and of the state behind it;
* `Parser.statementOf_yields`: from the statements inside to the whole statement;
* `Parser.program_yields`: all statements of a text.
-/

namespace CellScript

namespace Stmt

/-- A statement that can be printed, read up to a state where no `else` belongs to it. -/
structure ReadUpTo (st : Stmt) (t : ParseState) : Prop where
  canonical : st.Canonical
  noElse : st.endsOpen = true → t.reader.current.kind ≠ .keyword .else

/-- A statement that no `else` can follow as a part of it. -/
theorem ReadUpTo.of_closed {st : Stmt} (h : st.Canonical) (hend : st.endsOpen = false)
    (t : ParseState) : st.ReadUpTo t :=
  ⟨h, fun hopen => by rw [hend] at hopen; cases hopen⟩

theorem Simple.isNop_eq {st : Stmt} (h : st.Simple) : st.isNop = false := by cases h <;> rfl

theorem Simple.endsOpen_eq {st : Stmt} (h : st.Simple) : st.endsOpen = false := by
  cases h <;> simp only [endsOpen]

/-- A definition that can be printed. -/
structure Definition (f : FunctionDef Stmt) : Prop where
  signature : HasSignature f
  canonical : ∀ st ∈ f.body, st.Canonical

end Stmt

namespace Parser

open Stmt (ReadUpTo Row Definition)

/-- What a parser of statements gives: no node, or one that is not the empty statement. -/
def GivesNode (o : Option Stmt) (t : ParseState) : Prop :=
  ∀ st ∈ o, st.isNop = false ∧ st.ReadUpTo t

theorem GivesNode.some {st : Stmt} {t : ParseState} (hnop : st.isNop = false) (h : st.ReadUpTo t) :
    GivesNode (some st) t := by
  intro st' hst'
  cases hst'
  exact ⟨hnop, h⟩

/-! ## Simple statements -/

theorem simpleStatement_yields (n : Nat) : Yields (fun st _ => st.Simple) (simpleStatement n) := by
  refine (expression_yields n).bind fun target ht => .current fun kind => ?_
  split
  · refine .line fun l => ?_
    split
    · exact .bind_fail _
    · next hloc =>
      exact .after advance_yields fun _ => (expression_yields n).bind fun value hv =>
        .pure fun _ => .update (by simpa using hloc) value.isOperand_asOperand ht.canonical
          hv.operand
  · split
    · refine .line fun l => ?_
      split
      · exact .bind_fail _
      · next hloc =>
        exact .after advance_yields fun _ => (expression_yields n).bind fun value hv =>
          .pure fun _ => .assign (by simpa using hloc) value.isOperand_asOperand ht.canonical
            hv.operand
    · exact .pure fun _ => .expression ht.located ht.canonical

theorem returnStatement_yields (n : Nat) :
    Yields (fun st t => GivesNode (some st) t) (returnStatement n) := by
  have node (l : Nat) {value : Option Expr} (hv : ∀ e ∈ value, e.IsOperand ∧ e.Canonical) :
      Yields (fun st t => GivesNode (some st) t) (do
        expect .semicolon
        return Stmt.return value l) :=
    .after (expect_yields _) fun _ => .pure fun t => .some rfl (.of_closed (.return hv) rfl t)
  refine .line fun l => .after advance_yields fun _ => .atMark fun _ => ?_
  split
  · exact Yields.bind (P := (· = none)) (.pure fun _ => rfl) fun value hv => node l (by simp [hv])
  · refine (expression_yields n).bind fun e he => ?_
    exact Yields.bind (P := (· = some e.asOperand)) (.pure fun _ => rfl) fun value hv =>
      node l (by simpa [hv] using ⟨e.isOperand_asOperand, he.operand⟩)

theorem globalStatement_yields :
    Yields (fun st t => GivesNode (some st) t) globalStatement :=
  .line fun _ => .after advance_yields fun _ => (expectName_yields _).bind fun _ hname =>
    .after (expect_yields _) fun _ => .pure fun t =>
      .some rfl (.of_closed (.global hname) rfl t)

theorem jumpStatement_yields (outside : ParseCause) {node : Nat → Stmt}
    (hnode : ∀ l t, GivesNode (some (node l)) t) :
    Yields (fun st t => GivesNode (some st) t) (jumpStatement outside node) := by
  refine .read fun env => ?_
  split
  · exact .bind_fail _
  · exact .line fun l => .after advance_yields fun _ => .after (expect_yields _) fun _ =>
      .pure fun t => hnode l t

theorem conditionOf_yields (n : Nat) :
    Yields (fun c _ => c.IsOperand ∧ c.Canonical) (conditionOf n) :=
  .after (expect_yields _) fun _ => (expression_yields n).bind fun e he =>
    .after (expect_yields _) fun _ => .pure fun _ => ⟨e.isOperand_asOperand, he.operand⟩

theorem forPart_yields (close : Mark) (l n : Nat) :
    Yields (fun st _ => st.Simple ∨ st.isNop = true) (forPart close l n) :=
  .atMark fun _ => .ite (.pure fun _ => .inr rfl)
    ((simpleStatement_yields n).imp fun _ _ h => .inl h)

theorem forCondition_yields (l n : Nat) :
    Yields (fun c _ => c.IsOperand ∧ c.Canonical) (forCondition l n) :=
  .atMark fun _ => .ite (.pure fun _ => ⟨rfl, .boolean⟩) ((expression_yields n).bind fun e he =>
    .pure fun _ => ⟨e.isOperand_asOperand, he.operand⟩)

/-! ## Names and parameters -/

theorem functionName_yields : Yields (fun n _ => Stmt.IsFunctionName n) functionName := by
  refine (expectName_yields _).bind fun name hname => ?_
  split
  · next hoperator =>
    refine .current fun kind => ?_
    split
    · next symbol hsymbol =>
      refine .after advance_yields fun _ => .pure fun _ => .inr ?_
      rw [eq_of_beq hoperator]
      cases kind with
      | mark m => exact ⟨m, symbol, hsymbol, rfl⟩
      | _ => cases hsymbol
    · exact .pure fun _ => .inl hname
  · exact .pure fun _ => .inl hname

theorem moreParameters_yields (turns : Nat) {before : List String} (hb : ∀ p ∈ before, IsName p)
    (hd : before.Nodup) :
    Yields (fun ps _ => (∀ p ∈ ps, IsName p) ∧ ps.Nodup) (moreParameters turns before) := by
  induction turns generalizing before with
  | zero => exact .throw _
  | succ turns ih =>
    refine .atMark fun _ => .ite (.after advance_yields fun _ => (expectName_yields _).bind
      fun name hname => ?_) (.pure fun _ => ⟨hb, hd⟩)
    split
    · exact .bind_fail _
    · next hnew =>
      refine ih (fun p hp => ?_) ?_
      · rcases List.mem_append.1 hp with hp | hp
        · exact hb p hp
        · rwa [List.mem_singleton.1 hp]
      · have hnew : name ∉ before := by simpa using hnew
        exact List.nodup_append.2 ⟨hd, List.pairwise_singleton _ _, fun a ha b hb => by
          rw [List.mem_singleton.1 hb]
          rintro rfl
          exact hnew ha⟩

theorem parameters_yields (n : Nat) :
    Yields (fun ps _ => (∀ p ∈ ps, IsName p) ∧ ps.Nodup) (parameters n) :=
  .current fun _ => .ite ((expectName_yields _).bind fun name hname =>
      moreParameters_yields n (by simpa using hname) (List.pairwise_singleton _ name))
    (.pure fun _ => ⟨nofun, List.nodup_nil⟩)

theorem freshId_yields : Yields (fun _ _ => True) freshId := by
  intro env s hs
  exact ⟨⟨hs, trivial⟩⟩

/-! ## Statements with statements inside -/

section

variable {inner : Parser (Option Stmt)} (hi : Yields GivesNode inner) {n : Nat}

include hi

theorem statementsOf_yields (turns : Nat) :
    Yields (fun ss _ => Row ss) (statementsOf inner turns) := by
  induction turns with
  | zero => exact .throw _
  | succ turns ih =>
    refine .current fun kind => .ite ?_ (.pure fun _ => ⟨nofun, nofun⟩)
    refine Yields.bind (P := fun o : Option Stmt => ∀ st ∈ o, st.isNop = false ∧ st.Canonical)
      (hi.imp fun o t ho st hst => ⟨(ho st hst).1, (ho st hst).2.canonical⟩) fun o ho => ?_
    refine ih.bind fun ss hss => .pure fun _ => ⟨fun st hst => ?_, fun st hst => ?_⟩
    · rcases List.mem_append.1 hst with hst | hst
      · exact (ho st (Option.mem_toList.1 hst)).1
      · exact hss.noNop st hst
    · rcases List.mem_append.1 hst with hst | hst
      · exact (ho st (Option.mem_toList.1 hst)).2
      · exact hss.canonical st hst

theorem bracedOf_yields : Yields (fun ss _ => Row ss) (bracedOf inner n) :=
  .after (expect_yields _) fun _ => (statementsOf_yields hi n).bind fun _ hss =>
    .after (expect_yields _) fun _ => .pure fun _ => hss

theorem bodyOf_yields : Yields ReadUpTo (bodyOf inner) := by
  refine .current fun kind => .ite ?_ (.fail _)
  intro env s hs
  refine (hi env s hs).bind fun o t ⟨ht, ho⟩ => ?_
  cases o with
  | none => exact Yields.line (fun l => .pure fun u => .of_closed .nop rfl u) env t ht
  | some st =>
    rw [ends_pure]
    exact ⟨ht, (ho st rfl).2⟩

theorem loopBodyOf_yields : Yields ReadUpTo (loopBodyOf inner) := (bodyOf_yields hi).withLoop

/-- An `if` takes the `else` behind its first way, so that way ends closed when there is one. -/
theorem ifStatement_yields : Yields (fun st t => GivesNode (some st) t) (ifStatement inner n) := by
  refine .line fun l => .after advance_yields fun _ => (conditionOf_yields n).bind fun c hc => ?_
  intro env s hs
  refine (bodyOf_yields hi env s hs).bind fun positive t ⟨ht, hp⟩ => ?_
  rw [ends_current_bind]
  split
  · next helse =>
    have hclosed : positive.endsOpen = false :=
      Bool.eq_false_iff.2 fun hopen => hp.noElse hopen (eq_of_beq helse)
    refine Yields.after advance_yields (fun _ => (bodyOf_yields hi).node fun negative u hn => ?_)
      env t ht
    refine .some rfl ⟨.branch hc.1 hc.2 (fun _ => hclosed) hp.canonical (fun st hst => ?_),
      fun hopen => hn.noElse (by simpa only [Stmt.endsOpen, Stmt.elseEndsOpen] using hopen)⟩
    cases hst
    exact hn.canonical
  · next helse =>
    rw [ends_pure]
    exact ⟨ht, .some rfl ⟨.branch hc.1 hc.2 nofun hp.canonical nofun,
      fun _ hkind => helse (beq_iff_eq.2 hkind)⟩⟩

theorem whileStatement_yields :
    Yields (fun st t => GivesNode (some st) t) (whileStatement inner n) :=
  .line fun _ => .after advance_yields fun _ => (conditionOf_yields n).bind fun _ hc =>
    (loopBodyOf_yields hi).node fun _ _ hb => .some rfl ⟨.whileLoop hc.1 hc.2 hb.canonical,
      fun hopen => hb.noElse (by simpa only [Stmt.endsOpen] using hopen)⟩

theorem loopStatement_yields : Yields (fun st t => GivesNode (some st) t) (loopStatement inner) :=
  .line fun _ => .after advance_yields fun _ => (loopBodyOf_yields hi).node fun _ _ hb =>
    .some rfl ⟨.loop hb.canonical,
      fun hopen => hb.noElse (by simpa only [Stmt.endsOpen] using hopen)⟩

theorem doStatement_yields : Yields (fun st t => GivesNode (some st) t) (doStatement inner n) := by
  refine .line fun l => .after advance_yields fun _ => ?_
  refine Yields.bind (P := Stmt.Canonical) ((loopBodyOf_yields hi).imp fun _ _ h => h.canonical)
    fun body hb => .current fun kind => ?_
  split
  · exact .bind_fail _
  · refine .after advance_yields fun _ => (conditionOf_yields n).bind fun c hc =>
      .atMark fun _ => ?_
    have hdone (t : ParseState) : GivesNode (some (.doWhile c body l)) t :=
      .some rfl (.of_closed (.doWhile hc.1 hc.2 hb) rfl t)
    split
    · exact .after advance_yields fun _ => .pure hdone
    · exact .pure hdone

theorem forStatement_yields : Yields (fun st t => GivesNode (some st) t) (forStatement inner n) :=
  .line fun l => .after advance_yields fun _ => .after (expect_yields _) fun _ =>
    (forPart_yields _ l n).bind fun _ hinit => .after (expect_yields _) fun _ =>
    (forCondition_yields l n).bind fun _ hc => .after (expect_yields _) fun _ =>
    (forPart_yields _ l n).bind fun _ hstep => .after (expect_yields _) fun _ =>
    (loopBodyOf_yields hi).node fun _ _ hb =>
      .some rfl ⟨.forLoop hinit hc.1 hc.2 hstep hb.canonical,
        fun hopen => hb.noElse (by simpa only [Stmt.endsOpen] using hopen)⟩

theorem functionOf_yields : Yields (fun f _ => Definition f) (functionOf inner n) :=
  .line fun _ => .after advance_yields fun _ => functionName_yields.bind fun _ hname =>
    .after (expect_yields _) fun _ => (parameters_yields n).bind fun _ hps =>
    .after (expect_yields _) fun _ => .line fun _ => (bracedOf_yields hi).withLoop.bind
    fun _ hbody => .after freshId_yields fun _ => .pure fun _ =>
      ⟨⟨hname, hps.1, hps.2, hbody.noNop⟩, hbody.canonical⟩

theorem methodsOf_yields (bound turns : Nat) (before : List (FunctionDef Stmt))
    (hd : (before.map FunctionDef.name).Nodup) (hb : ∀ f ∈ before, Definition f) :
    Yields (fun fs _ => (fs.map FunctionDef.name).Nodup ∧ ∀ f ∈ fs, Definition f)
      (methodsOf inner bound turns before) := by
  induction turns generalizing before with
  | zero => exact .throw _
  | succ turns ih =>
    refine .current fun kind => .ite ((functionOf_yields hi).bind fun f hf => ?_)
      (.pure fun _ => ⟨hd, hb⟩)
    split
    · intro env s _
      refine Ends.bind_fail ?_
      rw [ends_failAt]
      trivial
    · next hnew =>
      refine ih _ ?_ fun g hg => ?_
      · have hnew : ∀ g ∈ before, g.name ≠ f.name := by simpa using hnew
        rw [List.map_append, List.nodup_append]
        refine ⟨hd, List.pairwise_singleton _ _, fun a ha b hb => ?_⟩
        obtain ⟨g, hg, rfl⟩ := List.mem_map.1 ha
        rw [show b = f.name by simpa using hb]
        exact hnew g hg
      · rcases List.mem_append.1 hg with hg | hg
        · exact hb g hg
        · rwa [List.mem_singleton.1 hg]

theorem classOf_yields : Yields (fun st t => GivesNode (some st) t) (classOf inner n) := by
  refine .line fun l => .current fun kind => .after advance_yields fun _ =>
    (expectName_yields _).bind fun name hname => .after (expect_yields _) fun _ =>
    (methodsOf_yields hi n n [] List.nodup_nil nofun).bind fun methods hm =>
    .atMark fun _ => ?_
  split
  · exact .bind_fail _
  · exact .after advance_yields fun _ => freshId_yields.node fun _ t _ =>
      .some rfl (.of_closed (.classDef hname hm.1 (fun f hf => (hm.2 f hf).signature)
        fun f hf => (hm.2 f hf).canonical) rfl t)

theorem realizationOf_yields :
    Yields (fun st t => GivesNode (some st) t) (realizationOf inner n) :=
  .line fun _ => (expectName_yields _).bind fun _ hname => (bracedOf_yields hi).withLoop.node
    fun _ t hbody => .some rfl (.of_closed (.realize hname hbody.noNop hbody.canonical) rfl t)

/-- A statement can be printed if the statements inside it can. -/
theorem statementOf_yields (load : String → Parser (List Stmt)) :
    Yields GivesNode (statementOf load inner n) := by
  have one {p : Parser Stmt} (hp : Yields (fun st t => GivesNode (some st) t) p) :
      Yields GivesNode (do return some (← p)) := hp.node fun _ _ h => h
  have simple : Yields GivesNode (do
      let st ← simpleStatement n
      expect .semicolon
      return some st) :=
    (simpleStatement_yields n).bind fun st hst => .after (expect_yields _) fun _ =>
      .pure fun t => .some hst.isNop_eq (.of_closed (.simple hst) hst.endsOpen_eq t)
  refine .ofCurrent fun t ht => ?_
  split
  · exact .after advance_yields fun _ => .pure fun _ => nofun
  · exact .line fun _ => (bracedOf_yields hi).node fun _ t hbody =>
      .some rfl (.of_closed (.block hbody.noNop hbody.canonical) rfl t)
  · exact (functionOf_yields hi).node fun _ t hf =>
      .some rfl (.of_closed (.function hf.signature hf.canonical) rfl t)
  · exact one (returnStatement_yields n)
  · exact one globalStatement_yields
  · exact one (ifStatement_yields hi)
  · exact one (whileStatement_yields hi)
  · exact one (doStatement_yields hi)
  · exact one (forStatement_yields hi)
  · exact one (loopStatement_yields hi)
  · exact one (jumpStatement_yields _ fun _ t => .some rfl (.of_closed .break rfl t))
  · exact one (jumpStatement_yields _ fun _ t => .some rfl (.of_closed .continue rfl t))
  · exact one (classOf_yields hi)
  · exact one (classOf_yields hi)
  · next hk => exact absurd hk ht.notInclude
  · split
    · refine .after (ofReader_yields fun _ _ _ h ha => h.isBlockStartAhead ha) fun _ => ?_
      split
      · exact one (realizationOf_yields hi)
      · exact simple
    · exact simple

end

/-! ## Whole texts -/

theorem statement_yields (load : String → Parser (List Stmt)) (n : Nat) :
    Yields GivesNode (statement load n) := by
  induction n with
  | zero => exact .throw _
  | succ n ih => exact statementOf_yields ih load

theorem program_yields (load : String → Parser (List Stmt)) :
    Yields (fun ss _ => Row ss) (program load) := by
  intro env s hs
  unfold program
  rw [ends_tokensLeft_bind]
  refine Yields.bind (statementsOf_yields (statement_yields load _) _) (fun ss hss =>
    .current fun kind => ?_) env s hs
  split
  · exact .bind_fail _
  · exact .pure fun _ => hss

end Parser

end CellScript
