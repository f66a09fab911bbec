import CellScript.Proofs.Closed
import CellScript.Proofs.Print.Expressions

/-!
# Reading printed statements

The parser reads the lexemes of a canonical statement as that statement, provided that its jumps
have their loops and that no `else` follows an open `if`. The proof is by induction on the
statement, with one lemma for each kind.

* `Stmt.ReadsAs`: the lexemes of a statement are read as it;
* `Parser.statementsOf_faces`, `Parser.bodyOf_faces`: lists of statements, and single ones;
* `Stmt.Canonical.readsAs`: canonical statements are read as what they are.
-/

namespace CellScript

open Lexeme (firstKind)

/-! ## The front of a statement -/

/-- The lexemes begin as a statement does. -/
def Starting (ls : List Lexeme) : Prop :=
  ∃ l rest, ls = l :: rest ∧ Parser.startsStatement l.kind = true

theorem Starting.firstKind {ls : List Lexeme} (h : Starting ls) (more : List Lexeme) :
    Parser.startsStatement (firstKind (ls ++ more)) = true := by
  obtain ⟨l, rest, rfl, hl⟩ := h
  exact hl

/-- A statement begins with a token that goes on with an expression. -/
def opensStatement (kind : TokenKind) : Bool :=
  Expr.opens kind && kind != .mark .bar && kind != .mark .less

/-- What stands at the front of a statement begins as a statement does. -/
theorem Expr.Opening.leading {ls : List Lexeme} (h : Opening ls) :
    ∃ l rest, Lexeme.leading ls = l :: rest ∧ opensStatement l.kind = true := by
  obtain ⟨l, rest, rfl, hl⟩ := h
  unfold Lexeme.leading
  cases hb : (l :: rest).head?.any fun l => l.kind == .mark .bar || l.kind == .mark .less with
  | true => exact ⟨_, _, rfl, rfl⟩
  | false =>
    refine ⟨l, rest, rfl, ?_⟩
    simp only [List.head?_cons, Option.any_some, Bool.or_eq_false_iff] at hb
    simp [opensStatement, hl, bne, hb.1, hb.2]

theorem startsStatement_of_opensStatement {kind : TokenKind} (h : opensStatement kind = true) :
    Parser.startsStatement kind = true := by
  cases kind with
  | keyword k => cases k <;> first | rfl | cases h
  | mark m => cases m <;> first | rfl | cases h
  | ident | integer | string => rfl
  | real | invalid | endOfSource => cases h

namespace Stmt

/-- What the parser of statements gives for a statement: nothing for the empty one. -/
def GivenBy (st : Stmt) (o : Option Stmt) : Prop :=
  if st.isNop then o = none else ∃ a, o = some a ∧ a.unplaced = st.unplaced

theorem givenBy_some {st a : Stmt} (hst : st.isNop = false) (h : a.unplaced = st.unplaced) :
    st.GivenBy (some a) := by
  unfold GivenBy
  rw [hst]
  exact ⟨a, rfl, h⟩

/-- In a loop or not as `inLoop` says, the lexemes of the statement are read as it, unless an `else`
follows that would become part of it. -/
def ReadsAs (load : String → Parser (List Stmt)) (inLoop : Bool) (st : Stmt) : Prop :=
  ∀ n env s rest, env.inLoop = inLoop → s.Faces (st.lexemes ++ rest) →
    (st.lexemes ++ rest).length + 1 < n →
    (st.endsOpen = true → firstKind rest ≠ .keyword .else) →
    (Parser.statement load n).Ends env s (fun o t => t.Faces rest ∧ st.GivenBy o) Parser.Never

end Stmt

namespace Parser

open Stmt

variable {load : String → Parser (List Stmt)} {n : Nat} {env : ParseEnv} {s : ParseState}
  {rest : List Lexeme}

/-! ## Expressions and assignments -/

/-- With or without the parentheses at the front of a statement, the expression is read. -/
theorem leading_readAt {e : Expr} (he : e.Canonical) {front : List Lexeme → List Lexeme}
    (hfront : front = id ∨ front = Lexeme.leading) : Expr.ReadAt 0 (front e.lexemes) e := by
  have hplain : Expr.ReadAt 0 e.lexemes e :=
    Expr.lexemesAt_zero e ▸ he.readable.readAt 0 (Nat.zero_le _)
  rcases hfront with rfl | rfl
  · exact hplain
  · unfold Lexeme.leading Lexeme.bracketed
    split
    · exact hplain.parens.down (Nat.zero_le _) (Nat.le_refl _) (List.cons_ne_nil _ _)
    · exact hplain

/-- The lexemes of an operand are read, up to something that does not go on. -/
theorem expression_faces {e : Expr} (he : e.Canonical) (ho : e.IsOperand)
    (hs : s.Faces (e.lexemes ++ rest)) (hn : (e.lexemes ++ rest).length < n)
    (hrest : (firstKind rest).binding? = none) :
    (expression n).Ends env s (fun a t => t.Faces rest ∧ a.asOperand.unplaced = e.unplaced) Never :=
  (leading_readAt he (.inl rfl) n env s rest hs hn (.of_none hrest)).imp
    fun _ _ ⟨ht, ha⟩ => ⟨ht, Expr.asOperand_of_read ha ho⟩

/-- What may follow an expression or assignment: a mark that ends it. -/
structure Ending (rest : List Lexeme) : Prop where
  binding : (firstKind rest).binding? = none
  update : updateOp? (firstKind rest) = none
  assign : firstKind rest ≠ .mark .assign

theorem ending_semicolon : Ending (.mark .semicolon :: rest) := ⟨rfl, rfl, nofun⟩

theorem ending_rightParen : Ending (.mark .rightParen :: rest) := ⟨rfl, rfl, nofun⟩

/-- The value behind the mark of an assignment. -/
theorem assigned_faces {m : Mark} {v : Expr} (hv : v.Canonical) (ho : v.IsOperand)
    (hs : s.Faces (.mark m :: (v.lexemes ++ rest))) (hn : (v.lexemes ++ rest).length < n)
    (hrest : Ending rest) {node : Expr → Stmt} {st : Stmt}
    (hnode : ∀ a, a.asOperand.unplaced = v.unplaced → (node a).unplaced = st.unplaced) : (do
      advance
      let value ← expression n
      return node value).Ends env s (fun a t => t.Faces rest ∧ a.unplaced = st.unplaced) Never := by
  refine (advance_faces hs nofun).bind fun _ t ht => ?_
  refine (expression_faces hv ho ht hn hrest.binding).bind fun a u ⟨hu, ha⟩ => ?_
  rw [ends_pure]
  exact ⟨hu, hnode a ha⟩

theorem simpleStatement_faces {st : Stmt} (hst : st.Simple) {front : List Lexeme → List Lexeme}
    (hfront : front = id ∨ front = Lexeme.leading) (hs : s.Faces (st.simpleLexemes front ++ rest))
    (hn : (st.simpleLexemes front ++ rest).length < n) (hrest : Ending rest) :
    (simpleStatement n).Ends env s (fun a t => t.Faces rest ∧ a.unplaced = st.unplaced) Never := by
  unfold simpleStatement
  cases hst with
  | @expression e hl hc =>
    refine (leading_readAt hc hfront n env s rest hs hn (.of_none hrest.binding)).bind
      fun a t ⟨ht, ha⟩ => ?_
    rw [ends_current_bind, ht.kind, hrest.update]
    dsimp only
    rw [if_neg fun h => hrest.assign (eq_of_beq h), ends_pure]
    rw [hl] at ha
    exact ⟨ht, congrArg Stmt.expression ha⟩
  | @assign target v l hl ho hct hcv =>
    simp only [simpleLexemes, List.append_assoc, List.cons_append, List.length_append,
      List.length_cons] at hs hn
    refine (leading_readAt hct hfront n env s _ hs
      (by simp only [List.length_append, List.length_cons]; omega) (.of_none rfl)).bind
      fun a t ⟨ht, ha⟩ => ?_
    obtain ⟨haloc, haeq⟩ := Expr.isLocation_of_read ha hl
    have hkind : t.reader.current.kind = .mark .assign := ht.kind
    rw [ends_current_bind, hkind]
    dsimp only [updateOp?]
    rw [if_pos (beq_self_eq_true _), ends_line_bind, haloc]
    refine assigned_faces hcv ho ht (by rw [List.length_append]; omega) hrest fun b hb => ?_
    simp only [unplaced, haeq, hb]
  | @update op target v l hl ho hct hcv =>
    simp only [simpleLexemes, List.append_assoc, List.cons_append, List.length_append,
      List.length_cons] at hs hn
    have hop : updateOp? (.mark op.assignMark) = some op := by cases op <;> rfl
    refine (leading_readAt hct hfront n env s _ hs
      (by simp only [List.length_append, List.length_cons]; omega)
      (.of_none (by cases op <;> rfl))).bind fun a t ⟨ht, ha⟩ => ?_
    obtain ⟨haloc, haeq⟩ := Expr.isLocation_of_read ha hl
    have hkind : t.reader.current.kind = .mark op.assignMark := ht.kind
    rw [ends_current_bind, hkind, hop]
    dsimp only
    rw [ends_line_bind, haloc]
    refine assigned_faces hcv ho ht (by rw [List.length_append]; omega) hrest fun b hb => ?_
    simp only [unplaced, haeq, hb]

theorem conditionOf_faces {c : Expr} (hc : c.Canonical) (ho : c.IsOperand)
    (hs : s.Faces (Lexeme.parens c.lexemes ++ rest))
    (hn : (Lexeme.parens c.lexemes ++ rest).length < n + 1) :
    (conditionOf n).Ends env s (fun a t => t.Faces rest ∧ a.unplaced = c.unplaced) Never := by
  simp only [Lexeme.parens, List.cons_append, List.append_assoc, List.nil_append,
    List.length_cons, List.length_append] at hs hn
  refine (expect_faces hs).bind fun _ t ht => ?_
  refine (expression_faces hc ho ht (by simp only [List.length_append, List.length_cons]; omega)
    rfl).bind fun a u h => ?_
  obtain ⟨hu, ha⟩ := h
  refine (expect_faces hu).bind fun _ v hv => ?_
  rw [ends_pure]
  exact ⟨hv, ha⟩

/-! ## Lists of statements, and single ones -/

theorem bodyOf_faces {st : Stmt} (hst : ReadsAs load env.inLoop st) (hfirst : Starting st.lexemes)
    (hs : s.Faces (st.lexemes ++ rest)) (hn : (st.lexemes ++ rest).length + 1 < n)
    (helse : st.endsOpen = true → firstKind rest ≠ .keyword .else) :
    (bodyOf (statement load n)).Ends env s
      (fun a t => t.Faces rest ∧ a.unplaced = st.unplaced) Never := by
  unfold bodyOf
  rw [ends_current_bind, hs.kind, if_pos (hfirst.firstKind rest)]
  refine (hst n env s rest rfl hs hn helse).bind fun o t ⟨ht, ho⟩ => ?_
  cases hnop : st.isNop with
  | true =>
    unfold GivenBy at ho
    rw [if_pos hnop] at ho
    subst ho
    dsimp only
    rw [ends_line_bind, ends_pure]
    cases st <;> first | exact ⟨ht, rfl⟩ | cases hnop
  | false =>
    unfold GivenBy at ho
    rw [if_neg (by rw [hnop]; exact Bool.false_ne_true)] at ho
    obtain ⟨a, rfl, ha⟩ := ho
    dsimp only
    rw [ends_pure]
    exact ⟨ht, ha⟩

/-- In a loop a body may jump. -/
theorem loopBodyOf_faces {st : Stmt} (hst : ReadsAs load true st) (hfirst : Starting st.lexemes)
    (hs : s.Faces (st.lexemes ++ rest)) (hn : (st.lexemes ++ rest).length + 1 < n)
    (helse : st.endsOpen = true → firstKind rest ≠ .keyword .else) :
    (loopBodyOf (statement load n)).Ends env s
      (fun a t => t.Faces rest ∧ a.unplaced = st.unplaced) Never :=
  ends_withLoop (bodyOf_faces hst hfirst hs hn helse)

/-- Statements are read up to something that begins none. -/
theorem statementsOf_faces {ss : List Stmt} (hss : ∀ st ∈ ss, ReadsAs load env.inLoop st)
    (hfirst : ∀ st ∈ ss, Starting st.lexemes) (hnop : ∀ st ∈ ss, st.isNop = false)
    (hrest : startsStatement (firstKind rest) = false) (helse : firstKind rest ≠ .keyword .else)
    {turns : Nat} (hs : s.Faces (lexemesAll ss ++ rest))
    (hturns : (lexemesAll ss ++ rest).length < turns)
    (hn : (lexemesAll ss ++ rest).length + 1 < n) :
    (statementsOf (statement load n) turns).Ends env s
      (fun as t => t.Faces rest ∧ unplacedAll as = unplacedAll ss) Never := by
  induction ss generalizing s turns with
  | nil =>
    obtain ⟨turns, rfl⟩ := Nat.exists_eq_add_of_lt hturns
    unfold statementsOf
    have hkind : s.reader.current.kind = firstKind rest := hs.kind
    rw [ends_current_bind, hkind, hrest]
    exact (ends_pure _ _).2 ⟨hs, rfl⟩
  | cons st ss ih =>
    obtain ⟨turns, rfl⟩ := Nat.exists_eq_add_of_lt hturns
    have hst := hss st List.mem_cons_self
    have hpos : 0 < st.lexemes.length := by
      obtain ⟨l, more, hl, -⟩ := hfirst st List.mem_cons_self
      rw [hl]
      exact Nat.succ_pos _
    simp only [lexemesAll, List.append_assoc, List.length_append] at hs hturns hn ⊢
    -- no statement begins with `else`
    have hnext : firstKind (lexemesAll ss ++ rest) ≠ .keyword .else := by
      cases ss with
      | nil => exact helse
      | cons st' ss =>
        intro h
        have hstart := (hfirst st' (by simp)).firstKind (lexemesAll ss ++ rest)
        rw [← List.append_assoc] at hstart
        change startsStatement (firstKind (lexemesAll (st' :: ss) ++ rest)) = true at hstart
        rw [h] at hstart
        cases hstart
    unfold statementsOf
    rw [ends_current_bind, hs.kind,
      if_pos ((hfirst st List.mem_cons_self).firstKind (lexemesAll ss ++ rest))]
    refine (hst n env s _ rfl hs (by simp only [List.length_append]; omega) fun _ => hnext).bind ?_
    rintro o t ⟨ht, ho⟩
    unfold GivenBy at ho
    rw [if_neg (by rw [hnop st List.mem_cons_self]; exact Bool.false_ne_true)] at ho
    obtain ⟨a, rfl, ha⟩ := ho
    refine (ih (fun st h => hss st (List.mem_cons_of_mem _ h))
      (fun st h => hfirst st (List.mem_cons_of_mem _ h))
      (fun st h => hnop st (List.mem_cons_of_mem _ h)) ht
      (by simp only [List.length_append]; omega) (by simp only [List.length_append]; omega)).bind ?_
    rintro as u ⟨hu, has⟩
    rw [ends_pure]
    exact ⟨hu, by simp only [Option.toList, List.singleton_append, unplacedAll, ha, has]⟩

theorem bracedOf_faces {ss : List Stmt} (hss : ∀ st ∈ ss, ReadsAs load env.inLoop st)
    (hfirst : ∀ st ∈ ss, Starting st.lexemes) (hnop : ∀ st ∈ ss, st.isNop = false)
    (hs : s.Faces (Lexeme.braces (lexemesAll ss) ++ rest)) {m : Nat}
    (hn : (Lexeme.braces (lexemesAll ss) ++ rest).length < n) (hm : n ≤ m) :
    (bracedOf (statement load n) m).Ends env s
      (fun as t => t.Faces rest ∧ unplacedAll as = unplacedAll ss) Never := by
  simp only [Lexeme.braces, List.cons_append, List.append_assoc, List.nil_append,
    List.length_cons, List.length_append] at hs hn
  refine (expect_faces hs).bind fun _ t ht => ?_
  refine (statementsOf_faces hss hfirst hnop rfl (fun h => by cases h) ht
    (by simp only [List.length_append, List.length_cons]; omega)
    (by simp only [List.length_append, List.length_cons]; omega)).bind fun as u ⟨hu, has⟩ => ?_
  refine (expect_faces hu).bind fun _ v hv => ?_
  rw [ends_pure]
  exact ⟨hv, has⟩

/-! ## Functions -/

theorem functionName_faces {name : String} (hs : s.Faces (Lexeme.functionName name ++
      .mark .leftParen :: rest)) :
    functionName.Ends env s (fun m t => m = name ∧ t.Faces (.mark .leftParen :: rest)) Never := by
  unfold Lexeme.functionName at hs
  unfold functionName
  cases hfind : Mark.all.find? fun m => (overloadable? (.mark m)).any ("operator" ++ · == name) with
  | some m =>
    rw [hfind] at hs
    have hany : (overloadable? (.mark m)).any ("operator" ++ · == name) = true :=
      List.find?_some (p := fun m => (overloadable? (.mark m)).any ("operator" ++ · == name)) hfind
    cases hsymbol : overloadable? (.mark m) with
    | none =>
      rw [hsymbol] at hany
      cases hany
    | some symbol =>
      rw [hsymbol, Option.any_some] at hany
      refine (expectName_faces _ hs).bind fun n t ⟨hn, ht⟩ => ?_
      subst hn
      have hkind : t.reader.current.kind = .mark m := ht.kind
      rw [if_pos (beq_self_eq_true _), ends_current_bind, hkind, hsymbol]
      refine (advance_faces ht nofun).bind fun _ u hu => ?_
      rw [ends_pure]
      exact ⟨eq_of_beq hany, hu⟩
  | none =>
    rw [hfind] at hs
    refine (expectName_faces _ hs).bind fun m t ⟨hm, ht⟩ => ?_
    subst hm
    split
    · have hkind : t.reader.current.kind = .mark .leftParen := ht.kind
      rw [ends_current_bind, hkind]
      exact (ends_pure _ _).2 ⟨rfl, ht⟩
    · rw [ends_pure]
      exact ⟨rfl, ht⟩

theorem moreParameters_faces (before : List String) {ps : List String}
    (hps : (before ++ ps).Nodup) {turns : Nat}
    (hs : s.Faces ((ps.flatMap fun p => [.mark .comma, .name p]) ++ .mark .rightParen :: rest))
    (hturns : ps.length < turns) :
    (moreParameters turns before).Ends env s
      (fun qs t => qs = before ++ ps ∧ t.Faces (.mark .rightParen :: rest)) Never := by
  induction ps generalizing s before turns with
  | nil =>
    obtain ⟨turns, rfl⟩ := Nat.exists_eq_add_of_lt hturns
    have hmark : (s.reader.current.kind == .mark .comma) = false := atMark_false hs nofun
    unfold moreParameters
    rw [ends_atMark_bind, hmark]
    exact (ends_pure _ _).2 ⟨(List.append_nil _).symm, hs⟩
  | cons p ps ih =>
    obtain ⟨turns, rfl⟩ := Nat.exists_eq_add_of_lt hturns
    have hnew : before.contains p = false := by
      simpa using fun h => (List.nodup_append.1 hps).2.2 p h p (by simp) rfl
    unfold moreParameters
    rw [ends_atMark_bind, if_pos (atMark_true hs)]
    refine (advance_faces hs nofun).bind fun _ t ht => ?_
    refine (expectName_faces _ ht).bind fun m u ⟨hm, hu⟩ => ?_
    subst hm
    rw [hnew]
    rw [List.length_cons] at hturns ⊢
    refine (ih (before ++ [m]) (by simpa using hps) hu (by omega)).imp
      fun qs v ⟨hqs, hv⟩ => ⟨by simpa using hqs, hv⟩

theorem parameters_faces {ps : List String} (hps : ps.Nodup)
    (hs : s.Faces (Lexeme.names ps ++ .mark .rightParen :: rest))
    (hn : (Lexeme.names ps ++ .mark .rightParen :: rest).length < n) :
    (parameters n).Ends env s
      (fun qs t => qs = ps ∧ t.Faces (.mark .rightParen :: rest)) Never := by
  unfold parameters
  cases ps with
  | nil =>
    have hkind : s.reader.current.kind = .mark .rightParen := hs.kind
    rw [ends_current_bind, hkind]
    exact (ends_pure _ _).2 ⟨rfl, hs⟩
  | cons p ps =>
    have hkind : s.reader.current.kind = .ident := hs.kind
    rw [ends_current_bind, hkind, if_pos (beq_self_eq_true _)]
    refine (expectName_faces _ hs).bind fun m t ⟨hm, ht⟩ => ?_
    subst hm
    have hlen : ps.length ≤ (ps.flatMap fun p => [Lexeme.mark .comma, .name p]).length := by
      simp only [List.length_flatMap, List.length_cons, List.length_nil, List.map_const',
        List.sum_replicate_nat]
      omega
    simp only [Lexeme.names, List.length_append, List.length_cons] at hn
    exact moreParameters_faces _ (by simpa using hps) ht (by omega)

theorem functionOf_faces {f : FunctionDef Stmt} (hsig : HasSignature f)
    (hbody : ∀ st ∈ f.body, ReadsAs load false st) (hfirst : ∀ st ∈ f.body, Starting st.lexemes)
    (hs : s.Faces (FunctionDef.lexemes f ++ rest)) {m : Nat}
    (hn : (FunctionDef.lexemes f ++ rest).length < n + 1) (hm : n ≤ m) :
    (functionOf (statement load n) m).Ends env s
      (fun g t => t.Faces rest ∧ FunctionDef.unplaced g = FunctionDef.unplaced f) Never := by
  obtain ⟨name, ps, body, bodyLine, id, l⟩ := f
  simp only [FunctionDef.lexemes, Lexeme.parens, List.cons_append, List.append_assoc,
    List.nil_append, List.length_cons, List.length_append] at hs hn
  unfold functionOf
  rw [ends_line_bind]
  refine (advance_faces hs nofun).bind fun _ t ht => ?_
  refine (functionName_faces ht).bind fun name' u ⟨hname, hu⟩ => ?_
  refine (expect_faces hu).bind fun _ v hv => ?_
  refine (parameters_faces hsig.distinct hv
    (by simp only [List.length_append, List.length_cons]; omega)).bind fun ps' w ⟨hps, hw⟩ => ?_
  refine (expect_faces hw).bind fun _ x hx => ?_
  rw [ends_line_bind]
  refine Ends.bind (ends_withLoop (bracedOf_faces hbody hfirst hsig.body hx
    (by simp only [List.length_append]; omega) hm)) fun as y ⟨hy, has⟩ => ?_
  refine Ends.bind (Q := fun _ z => z.Faces rest) ⟨hy⟩ fun id' z hz => ?_
  rw [ends_pure]
  refine ⟨hz, ?_⟩
  simp only [FunctionDef.unplaced, has, hname, hps]

theorem name_unplaced (f : FunctionDef Stmt) : (FunctionDef.unplaced f).name = f.name := by
  cases f
  rfl

theorem methodsOf_faces (before : List (FunctionDef Stmt)) {methods : List (FunctionDef Stmt)}
    (hsig : ∀ f ∈ methods, HasSignature f)
    (hbody : ∀ f ∈ methods, ∀ st ∈ f.body, ReadsAs load false st)
    (hfirst : ∀ f ∈ methods, ∀ st ∈ f.body, Starting st.lexemes)
    (hnames : (before.map FunctionDef.name ++ methods.map FunctionDef.name).Nodup) {turns : Nat}
    (hs : s.Faces (FunctionDef.lexemesAll methods ++ .mark .rightBrace :: rest))
    (hturns : methods.length < turns)
    (hn : (FunctionDef.lexemesAll methods ++ .mark .rightBrace :: rest).length < n + 1) {m : Nat}
    (hm : n ≤ m) :
    (methodsOf (statement load n) m turns before).Ends env s
      (fun fs t => t.Faces (.mark .rightBrace :: rest) ∧ FunctionDef.unplacedAll fs =
        FunctionDef.unplacedAll before ++ FunctionDef.unplacedAll methods) Never := by
  have all (fs : List (FunctionDef Stmt)) :
      FunctionDef.unplacedAll fs = fs.map FunctionDef.unplaced := by
    induction fs with
    | nil => rfl
    | cons f fs ih => rw [FunctionDef.unplacedAll, ih, List.map_cons]
  induction methods generalizing s before turns with
  | nil =>
    obtain ⟨turns, rfl⟩ := Nat.exists_eq_add_of_lt hturns
    have hkind : s.reader.current.kind = .mark .rightBrace := hs.kind
    unfold methodsOf
    rw [ends_current_bind, hkind]
    exact (ends_pure _ _).2 ⟨hs, (List.append_nil _).symm⟩
  | cons f methods ih =>
    obtain ⟨turns, rfl⟩ := Nat.exists_eq_add_of_lt hturns
    simp only [FunctionDef.lexemesAll, List.append_assoc, List.length_append, List.length_cons]
      at hs hn hturns ⊢
    have hkind : s.reader.current.kind = .keyword .function := by
      cases f
      exact hs.kind
    unfold methodsOf
    rw [ends_current_bind, hkind, if_pos (beq_self_eq_true _)]
    refine (functionOf_faces (hsig f List.mem_cons_self) (hbody f List.mem_cons_self)
      (hfirst f List.mem_cons_self) hs
      (by simp only [List.length_append, List.length_cons]; omega) hm).bind fun g t ⟨ht, hg⟩ => ?_
    have hname : g.name = f.name := by
      rw [← name_unplaced g, hg, name_unplaced]
    have hnew : (before.any (·.name == g.name)) = false := by
      rw [List.any_eq_false]
      intro h hmem heq
      refine (List.nodup_append.1 hnames).2.2 h.name (List.mem_map_of_mem hmem) f.name
        (by simp) ?_
      rw [← hname]
      exact eq_of_beq heq
    rw [hnew]
    have hnames' : ((before ++ [g]).map FunctionDef.name ++
        methods.map FunctionDef.name).Nodup := by
      simpa [hname] using hnames
    refine (ih _ (fun f h => hsig f (List.mem_cons_of_mem _ h))
      (fun f h => hbody f (List.mem_cons_of_mem _ h))
      (fun f h => hfirst f (List.mem_cons_of_mem _ h)) hnames' ht (by omega)
      (by simp only [List.length_append, List.length_cons]; omega)).imp
      fun fs u ⟨hu, hfs⟩ => ⟨hu, ?_⟩
    rw [hfs, all, all, all, List.map_append, List.map_singleton, hg, FunctionDef.unplacedAll, all,
      List.append_assoc, List.singleton_append]

end Parser

/-! ## Kinds of statements -/

namespace Stmt

open CellScript.Parser

variable {load : String → Parser (List Stmt)} {b : Bool}

/-- Reading a statement in terms of its kind. -/
theorem ReadsAs.of_kind {st : Stmt} (hnop : st.isNop = false)
    (h : ∀ n env s rest, env.inLoop = b → s.Faces (st.lexemes ++ rest) →
      (st.lexemes ++ rest).length < n + 1 →
      (st.endsOpen = true → firstKind rest ≠ .keyword .else) →
      (statementOf load (statement load (n + 1)) (n + 1)).Ends env s (fun o t => t.Faces rest ∧
        ∃ a, o = some a ∧ a.unplaced = st.unplaced) Never) : ReadsAs load b st := by
  intro n env s rest hb hs hn helse
  match n with
  | 0 | 1 => omega
  | n + 2 =>
    unfold statement
    refine (h n env s rest hb hs (by omega) helse).imp fun o t ⟨ht, a, ho, ha⟩ => ⟨ht, ?_⟩
    subst ho
    exact givenBy_some hnop ha

theorem ends_some {p : Parser Stmt} {env : ParseEnv} {s : ParseState} {rest : List Lexeme}
    {st : Stmt} (h : p.Ends env s (fun a t => t.Faces rest ∧ a.unplaced = st.unplaced) Never) :
    (do return some (← p)).Ends env s
      (fun o t => t.Faces rest ∧ ∃ a, o = some a ∧ a.unplaced = st.unplaced) Never :=
  h.bind fun a _ ⟨ht, ha⟩ => (ends_pure _ _).2 ⟨ht, a, rfl, ha⟩

theorem readsAs_nop {l : Nat} : ReadsAs load b (.nop l) := by
  intro n env s rest _ hs hn _
  match n with
  | 0 => omega
  | n + 1 =>
    unfold statement statementOf
    have hkind : s.reader.current.kind = .mark .semicolon := hs.kind
    rw [ends_current_bind, hkind]
    refine (advance_faces hs nofun).bind fun _ t ht => ?_
    rw [ends_pure]
    exact ⟨ht, rfl⟩

theorem readsAs_jump {k : Keyword} {node : Nat → Stmt} {outside : ParseCause} {l : Nat}
    (hk : k = .break ∧ node = .break ∧ outside = .breakOutsideLoop ∨
      k = .continue ∧ node = .continue ∧ outside = .continueOutsideLoop)
    (hb : b = true) : ReadsAs load b (node l) := by
  refine .of_kind (by rcases hk with ⟨-, rfl, -⟩ | ⟨-, rfl, -⟩ <;> rfl)
    fun n env s rest hloop hs hn _ => ?_
  have hs' : s.Faces (.keyword k :: .mark .semicolon :: rest) := by
    rcases hk with ⟨rfl, rfl, -⟩ | ⟨rfl, rfl, -⟩ <;> exact hs
  have hjump : (jumpStatement outside node).Ends env s
      (fun a t => t.Faces rest ∧ a.unplaced = (node l).unplaced) Never := by
    unfold jumpStatement
    rw [ends_read_bind, hloop, hb]
    refine (ends_line_bind _ _).2 ((advance_faces hs' nofun).bind fun _ t ht => ?_)
    refine (expect_faces ht).bind fun _ u hu => ?_
    rw [ends_pure]
    exact ⟨hu, by rcases hk with ⟨-, rfl, -⟩ | ⟨-, rfl, -⟩ <;> rfl⟩
  unfold statementOf
  have hkind : s.reader.current.kind = .keyword k := hs'.kind
  rw [ends_current_bind, hkind]
  rcases hk with ⟨rfl, rfl, rfl⟩ | ⟨rfl, rfl, rfl⟩ <;> exact ends_some hjump

theorem readsAs_return {value : Option Expr} {l : Nat}
    (hv : ∀ e ∈ value, e.IsOperand ∧ e.Canonical) : ReadsAs load b (.return value l) := by
  refine .of_kind rfl fun n env s rest _ hs hn _ => ?_
  have hkind : s.reader.current.kind = .keyword .return := hs.kind
  unfold statementOf
  rw [ends_current_bind, hkind]
  refine ends_some ?_
  unfold returnStatement
  rw [ends_line_bind]
  cases value with
  | none =>
    refine (advance_faces hs nofun).bind fun _ t ht => ?_
    rw [ends_atMark_bind, if_pos (atMark_true ht)]
    refine (expect_faces ht).bind fun _ u hu => ?_
    rw [ends_pure]
    exact ⟨hu, rfl⟩
  | some e =>
    obtain ⟨ho, hc⟩ := hv e rfl
    simp only [lexemes, Option.elim_some, List.cons_append, List.append_assoc, List.nil_append,
      List.length_cons] at hs hn
    refine (advance_faces hs nofun).bind fun _ t ht => ?_
    have hmark : (t.reader.current.kind == .mark .semicolon) = false := by
      refine atMark_false ht fun h => ?_
      obtain ⟨l, ls, hls, hl⟩ := hc.opening.append (.mark .semicolon :: rest)
      rw [hls] at h
      rw [show l.kind = .mark .semicolon from h] at hl
      cases hl
    rw [ends_atMark_bind, hmark]
    refine (expression_faces hc ho ht (by omega) rfl).bind fun a u ⟨hu, ha⟩ => ?_
    refine (expect_faces hu).bind fun _ v hv => ?_
    rw [ends_pure]
    exact ⟨hv, by simp only [unplaced, Option.map_some, ha]⟩

theorem readsAs_global {name : String} {l : Nat} : ReadsAs load b (.global name l) := by
  refine .of_kind rfl fun n env s rest _ hs hn _ => ?_
  have hkind : s.reader.current.kind = .keyword .global := hs.kind
  unfold statementOf
  rw [ends_current_bind, hkind]
  refine ends_some ?_
  unfold globalStatement
  rw [ends_line_bind]
  refine (advance_faces hs nofun).bind fun _ t ht => ?_
  refine (expectName_faces _ ht).bind fun m u ⟨hm, hu⟩ => ?_
  refine (expect_faces hu).bind fun _ v hv => ?_
  rw [ends_pure]
  exact ⟨hv, by rw [hm]; rfl⟩

theorem readsAs_block {body : List Stmt} {l : Nat} (hbody : ∀ st ∈ body, ReadsAs load b st)
    (hfirst : ∀ st ∈ body, Starting st.lexemes) (hnop : ∀ st ∈ body, st.isNop = false) :
    ReadsAs load b (.block body l) := by
  refine .of_kind rfl fun n env s rest hb hs hn _ => ?_
  subst hb
  have hkind : s.reader.current.kind = .mark .leftBrace := hs.kind
  unfold statementOf
  rw [ends_current_bind, hkind]
  refine (ends_line_bind _ _).2 ?_
  refine (bracedOf_faces hbody hfirst hnop hs hn (Nat.le_refl _)).bind fun as t ⟨ht, has⟩ => ?_
  rw [ends_pure]
  exact ⟨ht, _, rfl, by simp only [unplaced, has]⟩

theorem readsAs_realize {type : String} {body : List Stmt} {l : Nat}
    (hbody : ∀ st ∈ body, ReadsAs load false st) (hfirst : ∀ st ∈ body, Starting st.lexemes)
    (hnop : ∀ st ∈ body, st.isNop = false) : ReadsAs load b (.realize type body l) := by
  refine .of_kind rfl fun n env s rest _ hs hn _ => ?_
  rw [lexemes, List.cons_append] at hs hn
  rw [List.length_cons] at hn
  have hkind : s.reader.current.kind = .ident := hs.kind
  unfold statementOf
  rw [ends_current_bind, hkind]
  dsimp only
  rw [if_pos (beq_self_eq_true _)]
  refine (ofReader_faces hs.isBlockStartAhead).bind fun isBlock t ⟨hblock, ht⟩ => ?_
  obtain rfl : isBlock = true := hblock
  rw [if_pos rfl]
  refine ends_some ?_
  unfold realizationOf
  rw [ends_line_bind]
  refine (expectName_faces _ ht).bind fun m u ⟨hm, hu⟩ => ?_
  refine Ends.bind (ends_withLoop (bracedOf_faces hbody hfirst hnop hu (by omega)
    (Nat.le_refl _))) fun as v ⟨hv, has⟩ => ?_
  rw [ends_pure]
  exact ⟨hv, by simp only [unplaced, has, hm]⟩

theorem readsAs_function {f : FunctionDef Stmt} (hsig : HasSignature f)
    (hbody : ∀ st ∈ f.body, ReadsAs load false st) (hfirst : ∀ st ∈ f.body, Starting st.lexemes) :
    ReadsAs load b (.function f) := by
  refine .of_kind rfl fun n env s rest _ hs hn _ => ?_
  have hkind : s.reader.current.kind = .keyword .function := by
    cases f
    exact hs.kind
  unfold statementOf
  rw [ends_current_bind, hkind]
  refine (functionOf_faces hsig hbody hfirst hs (by simp only [lexemes] at hn; omega)
    (Nat.le_refl _)).bind fun g t ⟨ht, hg⟩ => ?_
  rw [ends_pure]
  exact ⟨ht, _, rfl, by simp only [unplaced, hg]⟩

theorem length_le_lexemesAll (methods : List (FunctionDef Stmt)) :
    methods.length ≤ (FunctionDef.lexemesAll methods).length := by
  induction methods with
  | nil => exact Nat.le_refl _
  | cons f methods ih =>
    have hpos : 0 < (FunctionDef.lexemes f).length := by
      cases f
      exact Nat.succ_pos _
    simp only [FunctionDef.lexemesAll, List.length_append, List.length_cons]
    omega

theorem readsAs_classDef {isInstant : Bool} {name : String} {methods : List (FunctionDef Stmt)}
    {id : DefId} {l : Nat} (hsig : ∀ f ∈ methods, HasSignature f)
    (hbody : ∀ f ∈ methods, ∀ st ∈ f.body, ReadsAs load false st)
    (hfirst : ∀ f ∈ methods, ∀ st ∈ f.body, Starting st.lexemes)
    (hnames : (methods.map FunctionDef.name).Nodup) :
    ReadsAs load b (.classDef isInstant name methods id l) := by
  refine .of_kind rfl fun n env s rest _ hs hn _ => ?_
  simp only [lexemes, Lexeme.braces, List.cons_append, List.append_assoc, List.nil_append,
    List.length_cons] at hs hn
  have hlen := length_le_lexemesAll methods
  have hclass : (classOf (statement load (n + 1)) (n + 1)).Ends env s (fun a t => t.Faces rest ∧
      a.unplaced = (Stmt.classDef isInstant name methods id l).unplaced) Never := by
    unfold classOf
    have hkind : (s.reader.current.kind == .keyword .instant) = isInstant := by
      rw [show s.reader.current.kind = .keyword (if isInstant then .instant else .classDef) from
        hs.kind]
      cases isInstant <;> rfl
    rw [ends_line_bind, ends_current_bind, hkind]
    refine (advance_faces hs nofun).bind fun _ t ht => ?_
    refine (expectName_faces _ ht).bind fun m u ⟨hm, hu⟩ => ?_
    refine (expect_faces hu).bind fun _ v hv => ?_
    have hlength := hn
    rw [List.length_append] at hlength
    refine (methodsOf_faces [] hsig hbody hfirst hnames hv (by omega) (by omega)
      (Nat.le_refl _)).bind fun fs w ⟨hw, hfs⟩ => ?_
    rw [ends_atMark_bind, atMark_true hw]
    refine (advance_faces hw nofun).bind fun _ x hx => ?_
    refine Ends.bind (Q := fun _ z => z.Faces rest) ⟨hx⟩ fun id' z hz => ?_
    rw [ends_pure]
    exact ⟨hz, by simp only [unplaced, hm, hfs, FunctionDef.unplacedAll, List.nil_append]⟩
  unfold statementOf
  have hkind : s.reader.current.kind = .keyword (if isInstant then .instant else .classDef) :=
    hs.kind
  rw [ends_current_bind, hkind]
  cases isInstant <;> exact ends_some hclass

/-! ### Branches and loops -/

/-- A body of a statement: how it is read, and how it begins. -/
structure Body (load : String → Parser (List Stmt)) (inLoop : Bool) (st : Stmt) : Prop where
  readsAs : ReadsAs load inLoop st
  starting : Starting st.lexemes

section

variable {c : Expr} (hc : c.Canonical) (ho : c.IsOperand) {l : Nat}

include hc ho

theorem readsAs_branch {positive : Stmt} {negative : Option Stmt} (hp : Body load b positive)
    (hn : ∀ st ∈ negative, Body load b st)
    (hopen : negative.isSome = true → positive.endsOpen = false) :
    ReadsAs load b (.branch c positive negative l) := by
  refine .of_kind rfl fun n env s rest hb hs hlen helse => ?_
  subst hb
  simp only [lexemes, List.cons_append, List.append_assoc, List.length_cons] at hs hlen
  have hkind : s.reader.current.kind = .keyword .if := hs.kind
  unfold statementOf
  rw [ends_current_bind, hkind]
  refine ends_some ?_
  unfold ifStatement
  rw [ends_line_bind]
  refine (advance_faces hs nofun).bind fun _ t ht => ?_
  refine (conditionOf_faces hc ho ht (by omega)).bind fun a u ⟨hu, ha⟩ => ?_
  have hpos : 0 < (Lexeme.parens c.lexemes).length := Nat.succ_pos _
  rw [List.length_append] at hlen
  cases negative with
  | none =>
    have hrest : firstKind rest ≠ .keyword .else := helse rfl
    refine (bodyOf_faces hp.readsAs hp.starting hu (by omega) fun _ => hrest).bind
      fun p v ⟨hv, hpv⟩ => ?_
    replace hv : v.Faces rest := hv
    have hkind : (v.reader.current.kind == .keyword .else) = false := by
      rw [beq_eq_false_iff_ne, hv.kind]
      exact hrest
    rw [ends_current_bind, hkind]
    exact (ends_pure _ _).2 ⟨hv, by simp only [unplaced, unplacedOption, ha, hpv]⟩
  | some negative =>
    obtain ⟨hread, hstart⟩ := hn negative rfl
    simp only [elseLexemes, List.cons_append, List.length_append, List.length_cons] at hu hlen
    refine (bodyOf_faces hp.readsAs hp.starting hu
      (by simp only [List.length_append, List.length_cons]; omega) fun h => ?_).bind
      fun p v ⟨hv, hpv⟩ => ?_
    · rw [hopen rfl] at h
      cases h
    have hkind : v.reader.current.kind = .keyword .else := hv.kind
    rw [ends_current_bind, hkind, if_pos (beq_self_eq_true _)]
    refine (advance_faces hv nofun).bind fun _ w hw => ?_
    refine (bodyOf_faces hread hstart hw (by simp only [List.length_append]; omega) helse).bind
      fun q x ⟨hx, hq⟩ => ?_
    rw [ends_pure]
    exact ⟨hx, by simp only [unplaced, unplacedOption, ha, hpv, hq]⟩

theorem readsAs_whileLoop {body : Stmt} (hbody : Body load true body) :
    ReadsAs load b (.whileLoop c body l) := by
  refine .of_kind rfl fun n env s rest _ hs hlen helse => ?_
  simp only [lexemes, List.cons_append, List.append_assoc, List.length_cons] at hs hlen
  have hkind : s.reader.current.kind = .keyword .while := hs.kind
  unfold statementOf
  rw [ends_current_bind, hkind]
  refine ends_some ?_
  unfold whileStatement
  rw [ends_line_bind]
  refine (advance_faces hs nofun).bind fun _ t ht => ?_
  refine (conditionOf_faces hc ho ht (by omega)).bind fun a u ⟨hu, ha⟩ => ?_
  have hpos : 0 < (Lexeme.parens c.lexemes).length := Nat.succ_pos _
  rw [List.length_append] at hlen
  refine (loopBodyOf_faces hbody.readsAs hbody.starting hu (by omega) helse).bind
    fun p v ⟨hv, hp⟩ => ?_
  rw [ends_pure]
  exact ⟨hv, by simp only [unplaced, ha, hp]⟩

/-- The semicolon behind a `do` loop is printed, though it may be missing. -/
theorem readsAs_doWhile {body : Stmt} (hbody : Body load true body) :
    ReadsAs load b (.doWhile c body l) := by
  refine .of_kind rfl fun n env s rest _ hs hlen _ => ?_
  simp only [lexemes, List.cons_append, List.append_assoc, List.nil_append, List.length_cons,
    List.length_append] at hs hlen
  have hkind : s.reader.current.kind = .keyword .do := hs.kind
  unfold statementOf
  rw [ends_current_bind, hkind]
  refine ends_some ?_
  unfold doStatement
  rw [ends_line_bind]
  refine (advance_faces hs nofun).bind fun _ t ht => ?_
  refine (loopBodyOf_faces hbody.readsAs hbody.starting ht
    (by simp only [List.length_append, List.length_cons]; omega) fun _ h => by cases h).bind
    fun p u ⟨hu, hp⟩ => ?_
  have hkind : u.reader.current.kind = .keyword .while := hu.kind
  rw [ends_current_bind, hkind]
  refine (advance_faces hu nofun).bind fun _ v hv => ?_
  refine (conditionOf_faces hc ho hv
    (by simp only [List.length_append, List.length_cons]; omega)).bind fun a w ⟨hw, ha⟩ => ?_
  rw [ends_atMark_bind, if_pos (atMark_true hw)]
  refine (advance_faces hw nofun).bind fun _ x hx => ?_
  rw [ends_pure]
  exact ⟨hx, by simp only [unplaced, ha, hp]⟩

end

theorem readsAs_loop {body : Stmt} {l : Nat} (hbody : Body load true body) :
    ReadsAs load b (.loop body l) := by
  refine .of_kind rfl fun n env s rest _ hs hlen helse => ?_
  simp only [lexemes, List.cons_append, List.length_cons] at hs hlen
  have hkind : s.reader.current.kind = .keyword .loop := hs.kind
  unfold statementOf
  rw [ends_current_bind, hkind]
  refine ends_some ?_
  unfold loopStatement
  rw [ends_line_bind]
  refine (advance_faces hs nofun).bind fun _ t ht => ?_
  refine (loopBodyOf_faces hbody.readsAs hbody.starting ht (by omega) helse).bind
    fun p u ⟨hu, hp⟩ => ?_
  rw [ends_pure]
  exact ⟨hu, by simp only [unplaced, hp]⟩

/-! ### Expressions and assignments as statements -/

theorem Simple.isNop {st : Stmt} (h : st.Simple) : st.isNop = false := by cases h <;> rfl

theorem Simple.lexemes_eq {st : Stmt} (h : st.Simple) :
    st.lexemes = st.simpleLexemes Lexeme.leading ++ [.mark .semicolon] := by
  cases h <;> simp only [lexemes]

/-- The first lexeme, and the second one: no brace follows that would open a realization. -/
theorem Simple.front {st : Stmt} (h : st.Simple) : ∃ l more,
    st.simpleLexemes Lexeme.leading = l :: more ∧ opensStatement l.kind = true ∧
      ∀ m ∈ more, m.kind ≠ .mark .leftBrace := by
  have expression {e : Expr} (he : e.Canonical) (more : List Lexeme)
      (hmore : ∀ m ∈ more, m.kind ≠ .mark .leftBrace) : ∃ l rest,
        Lexeme.leading e.lexemes ++ more = l :: rest ∧ opensStatement l.kind = true ∧
          ∀ m ∈ rest, m.kind ≠ .mark .leftBrace := by
    obtain ⟨l, rest, hl, hopen⟩ := he.opening.leading
    have hinner : Expr.Inner (Lexeme.leading e.lexemes) := he.inner.bracketed _
    refine ⟨l, rest ++ more, by rw [hl]; rfl, hopen, fun m hm => ?_⟩
    rcases List.mem_append.1 hm with hm | hm
    · exact (hinner m (hl ▸ List.mem_cons_of_mem _ hm)).2
    · exact hmore m hm
  cases h with
  | expression _ hc => simpa [simpleLexemes] using expression hc [] (by simp)
  | assign _ _ hct hcv =>
    refine expression hct _ fun m hm => ?_
    rcases List.mem_cons.1 hm with rfl | hm
    · exact nofun
    · exact (hcv.inner m hm).2
  | @update op _ _ _ _ _ hct hcv =>
    refine expression hct _ fun m hm => ?_
    rcases List.mem_cons.1 hm with rfl | hm
    · cases op <;> exact nofun
    · exact (hcv.inner m hm).2

theorem readsAs_simple {st : Stmt} (h : st.Simple) : ReadsAs load b st := by
  refine .of_kind h.isNop fun n env s rest _ hs hn _ => ?_
  rw [h.lexemes_eq, List.append_assoc, List.singleton_append] at hs hn
  obtain ⟨l, more, hfront, hopen, hbrace⟩ := h.front
  have hsimple {t : ParseState} (ht : t.Faces (st.simpleLexemes Lexeme.leading ++
      .mark .semicolon :: rest)) : (do
        let a ← simpleStatement (n + 1)
        expect .semicolon
        return some a).Ends env t (fun o u => u.Faces rest ∧
          ∃ a, o = some a ∧ a.unplaced = st.unplaced) Never := by
    refine (simpleStatement_faces h (.inr rfl) ht hn ending_semicolon).bind fun a u ⟨hu, ha⟩ => ?_
    refine (expect_faces hu).bind fun _ v hv => ?_
    rw [ends_pure]
    exact ⟨hv, a, rfl, ha⟩
  have hfaces := hs
  rw [hfront, List.cons_append] at hfaces
  have hkind : s.reader.current.kind = l.kind := hfaces.kind
  have other {kind : TokenKind} (hk : l.kind = kind) (hnot : opensStatement kind = false) :
      False := by
    rw [hk, hnot] at hopen
    cases hopen
  unfold statementOf
  rw [ends_current_bind, hkind]
  split
  case h_16 =>
    split
    · refine (ofReader_faces hfaces.isBlockStartAhead).bind fun isBlock t ⟨hblock, ht⟩ => ?_
      have hplain : isBlock = false := by
        rw [hblock, beq_eq_false_iff_ne]
        cases more with
        | nil => exact nofun
        | cons m more => exact hbrace m List.mem_cons_self
      rw [hplain]
      exact hsimple (by rw [hfront]; exact ht)
    · exact hsimple hs
  all_goals next hk => exact (other hk rfl).elim

/-- A part of a `for` ends where its mark stands; a missing one does nothing. -/
theorem forPart_faces {st : Stmt} (hst : st.Simple ∨ st.isNop = true) {close : Mark} {l n : Nat}
    {env : ParseEnv} {s : ParseState} {rest : List Lexeme}
    (hclose : Expr.opens (.mark close) = false) (hending : Ending (.mark close :: rest))
    (hs : s.Faces (st.simpleLexemes id ++ .mark close :: rest))
    (hn : (st.simpleLexemes id ++ .mark close :: rest).length < n) :
    (forPart close l n).Ends env s
      (fun a t => t.Faces (.mark close :: rest) ∧ a.unplaced = st.unplaced) Never := by
  unfold forPart
  rcases hst with hst | hst
  · have hmark : (s.reader.current.kind == .mark close) = false := by
      refine atMark_false hs fun h => ?_
      have hopening : Expr.Opening (st.simpleLexemes id) := by
        cases hst with
        | expression _ hc => exact hc.opening
        | assign _ _ hct _ => exact hct.opening.append _
        | update _ _ hct _ => exact hct.opening.append _
      obtain ⟨m, more, hls, hm⟩ := hopening.append (.mark close :: rest)
      rw [hls] at h
      rw [show m.kind = .mark close from h, hclose] at hm
      cases hm
    rw [ends_atMark_bind, hmark]
    exact simpleStatement_faces hst (.inl rfl) hs hn hending
  · have hempty : st.simpleLexemes id = [] := by cases st <;> first | rfl | cases hst
    have hnode : (Stmt.nop l).unplaced = st.unplaced := by cases st <;> first | rfl | cases hst
    rw [hempty] at hs
    rw [ends_atMark_bind, if_pos (atMark_true hs), ends_pure]
    exact ⟨hs, hnode⟩

theorem readsAs_forLoop {init step body : Stmt} {c : Expr} {l : Nat}
    (hinit : init.Simple ∨ init.isNop = true) (hc : c.Canonical) (ho : c.IsOperand)
    (hstep : step.Simple ∨ step.isNop = true) (hbody : Body load true body) :
    ReadsAs load b (.forLoop init c step body l) := by
  refine .of_kind rfl fun n env s rest _ hs hlen helse => ?_
  simp only [lexemes, Lexeme.parens, List.cons_append, List.append_assoc, List.nil_append,
    List.length_cons, List.length_append] at hs hlen
  have hkind : s.reader.current.kind = .keyword .for := hs.kind
  unfold statementOf
  rw [ends_current_bind, hkind]
  refine ends_some ?_
  unfold forStatement
  rw [ends_line_bind]
  refine (advance_faces hs (by decide)).bind fun _ t ht => ?_
  refine (expect_faces ht).bind fun _ u hu => ?_
  refine (forPart_faces hinit rfl ending_semicolon hu
    (by simp only [List.length_append, List.length_cons]; omega)).bind fun i v h => ?_
  obtain ⟨hv, hi⟩ := h
  refine (expect_faces hv).bind fun _ w hw => ?_
  have hcondition : (forCondition s.reader.current.line (n + 1)).Ends env w (fun a x =>
      x.Faces (.mark .semicolon :: (step.simpleLexemes id ++ .mark .rightParen ::
        (body.lexemes ++ rest))) ∧ a.unplaced = c.unplaced) Never := by
    unfold forCondition
    have hmark : (w.reader.current.kind == .mark .semicolon) = false := by
      refine atMark_false hw fun h => ?_
      obtain ⟨m, more, hls, hm⟩ := hc.opening.append (.mark .semicolon ::
        (step.simpleLexemes id ++ .mark .rightParen :: (body.lexemes ++ rest)))
      rw [hls] at h
      rw [show m.kind = .mark .semicolon from h] at hm
      cases hm
    rw [ends_atMark_bind, hmark]
    refine (expression_faces hc ho hw
      (by simp only [List.length_append, List.length_cons]; omega) rfl).bind fun a x h => ?_
    obtain ⟨hx, ha⟩ := h
    rw [ends_pure]
    exact ⟨hx, ha⟩
  refine hcondition.bind fun a x h => ?_
  obtain ⟨hx, ha⟩ := h
  refine (expect_faces hx).bind fun _ y hy => ?_
  refine (forPart_faces hstep rfl ending_rightParen hy
    (by simp only [List.length_append, List.length_cons]; omega)).bind fun st z h => ?_
  obtain ⟨hz, hst⟩ := h
  refine (expect_faces hz).bind fun _ q hq => ?_
  refine (loopBodyOf_faces hbody.readsAs hbody.starting hq
    (by simp only [List.length_append]; omega) helse).bind fun p r h => ?_
  obtain ⟨hr, hp⟩ := h
  rw [ends_pure]
  exact ⟨hr, by simp only [unplaced, hi, ha, hst, hp]⟩

/-! ## All statements -/

theorem Canonical.starting {st : Stmt} (h : st.Canonical) : Starting st.lexemes := by
  cases h with
  | simple hs =>
    rw [hs.lexemes_eq]
    obtain ⟨l, more, hl, hopen, -⟩ := hs.front
    rw [hl]
    exact ⟨l, _, rfl, startsStatement_of_opensStatement hopen⟩
  | @function f => cases f; exact ⟨_, _, rfl, rfl⟩
  | @classDef isInstant => cases isInstant <;> exact ⟨_, _, rfl, rfl⟩
  | _ => exact ⟨_, _, rfl, rfl⟩

/-- The parser reads what was printed of a canonical statement whose jumps have their loops. -/
theorem Canonical.readsAs {st : Stmt} (h : st.Canonical) :
    ∀ b, st.closed b = true → ReadsAs load b st := by
  have each {b : Bool} {body : List Stmt} (hbody : Stmt.closedAll b body = true) :
      ∀ st ∈ body, st.closed b = true := Stmt.closedAll_iff.1 hbody
  induction h with
  | simple hs => exact fun _ _ => readsAs_simple hs
  | nop => exact fun _ _ => readsAs_nop
  | realize _ hnop hbody ih =>
    intro b hb
    simp only [closed] at hb
    exact readsAs_realize (fun st hst => ih st hst _ (each hb st hst))
      (fun st hst => (hbody st hst).starting) hnop
  | block hnop hbody ih =>
    intro b hb
    simp only [closed] at hb
    exact readsAs_block (fun st hst => ih st hst _ (each hb st hst))
      (fun st hst => (hbody st hst).starting) hnop
  | branch ho hc hopen hp hn ihp ihn =>
    intro b hb
    simp only [closed, Bool.and_eq_true] at hb
    refine readsAs_branch hc ho ⟨ihp b hb.1, hp.starting⟩ (fun st hst => ⟨ihn st hst b ?_,
      (hn st hst).starting⟩) hopen
    cases hst
    exact hb.2
  | loop hbody ih =>
    intro b hb
    simp only [closed] at hb
    exact readsAs_loop ⟨ih _ hb, hbody.starting⟩
  | whileLoop ho hc hbody ih =>
    intro b hb
    simp only [closed] at hb
    exact readsAs_whileLoop hc ho ⟨ih _ hb, hbody.starting⟩
  | doWhile ho hc hbody ih =>
    intro b hb
    simp only [closed] at hb
    exact readsAs_doWhile hc ho ⟨ih _ hb, hbody.starting⟩
  | forLoop hinit ho hc hstep hbody ih =>
    intro b hb
    simp only [closed, Bool.and_eq_true] at hb
    exact readsAs_forLoop hinit hc ho hstep ⟨ih _ hb.2, hbody.starting⟩
  | «break» =>
    intro b hb
    exact readsAs_jump (.inl ⟨rfl, rfl, rfl⟩) (by simpa only [closed] using hb)
  | «continue» =>
    intro b hb
    exact readsAs_jump (.inr ⟨rfl, rfl, rfl⟩) (by simpa only [closed] using hb)
  | «return» hv => exact fun _ _ => readsAs_return hv
  | global => exact fun _ _ => readsAs_global
  | function hsig hbody ih =>
    intro b hb
    simp only [closed, FunctionDef.closed_eq] at hb
    exact readsAs_function hsig (fun st hst => ih st hst _ (each hb st hst))
      fun st hst => (hbody st hst).starting
  | classDef _ hnames hsig hbody ih =>
    intro b hb
    simp only [closed, FunctionDef.closedAll_iff] at hb
    exact readsAs_classDef hsig (fun f hf st hst => ih f hf st hst _ (each (hb f hf) st hst))
      (fun f hf st hst => (hbody f hf st hst).starting) hnames

end Stmt

end CellScript
