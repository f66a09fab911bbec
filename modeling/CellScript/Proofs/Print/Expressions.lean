import CellScript.Proofs.Print.Levels

/-!
# Reading printed expressions

The parser reads the lexemes of a canonical expression as that expression, at every level. The proof
is by induction on the expression. Each kind is read at its own level; from there looser levels and
parentheses give all others.

* `Expr.Readable`: the lexemes asked for at a level are read at it;
* `Expr.Readable.of_own`: reading an expression at its own level is enough;
* `Expr.Canonical.readable`: canonical expressions are readable.
-/

namespace CellScript

namespace Expr

open CellScript.Parser

/-- At every level the lexemes that it asks for are read, and open to it if it groups. -/
structure Readable (e : Expr) : Prop where
  readAt : ∀ k ≤ 8, ReadAt k (e.lexemesAt k) e
  openAt : ∀ k, groups k → OpenAt k (e.lexemesAt k) e

theorem lexemesAt_of_le {k : Nat} {e : Expr} (h : k ≤ e.level) : e.lexemesAt k = e.lexemes := by
  unfold lexemesAt
  rw [decide_eq_false (by omega)]
  rfl

theorem lexemesAt_of_lt {k : Nat} {e : Expr} (h : e.level < k) :
    e.lexemesAt k = Lexeme.parens e.lexemes := by
  unfold lexemesAt
  rw [decide_eq_true h]
  rfl

theorem lexemesAt_zero (e : Expr) : e.lexemesAt 0 = e.lexemes := lexemesAt_of_le (Nat.zero_le _)

theorem level_le (e : Expr) : e.level ≤ 8 := by
  cases e with
  | arithmetic op => cases op <;> exact Nat.le_of_ble_eq_true rfl
  | logical op => cases op <;> exact Nat.le_of_ble_eq_true rfl
  | _ => exact Nat.le_of_ble_eq_true rfl

/-- Reading an expression at its own level is enough. -/
theorem Readable.of_own {e : Expr} (hread : ReadAt e.level e.lexemes e)
    (hopen : groups e.level → OpenAt e.level e.lexemes e) : e.Readable := by
  have hparens : ReadAt 8 (Lexeme.parens e.lexemes) e :=
    (hread.down (Nat.zero_le _) (level_le e) e.lexemes_ne_nil).parens
  have at_level : ∀ k ≤ 8, ReadAt k (e.lexemesAt k) e := by
    intro k hk
    by_cases hlt : e.level < k
    · rw [lexemesAt_of_lt hlt]
      exact hparens.down hk (Nat.le_refl _) (List.cons_ne_nil _ _)
    · rw [lexemesAt_of_le (by omega)]
      exact hread.down (by omega) (level_le e) e.lexemes_ne_nil
  refine ⟨at_level, fun k hk => ?_⟩
  have hk8 : k + 1 ≤ 8 := by
    simp only [groups, List.mem_cons, List.not_mem_nil, or_false] at hk
    omega
  rcases Nat.lt_trichotomy e.level k with hlt | rfl | hlt
  · rw [lexemesAt_of_lt hlt]
    exact (hparens.down hk8 (Nat.le_refl _) (List.cons_ne_nil _ _)).openAt hk (List.cons_ne_nil _ _)
  · rw [lexemesAt_of_le (Nat.le_refl _)]
    exact hopen hk
  · have hnext := at_level (k + 1) hk8
    rw [lexemesAt_of_le (by omega)] at hnext ⊢
    exact hnext.openAt hk e.lexemes_ne_nil

/-- Of a level that groups, only the open reading is needed. -/
theorem Readable.of_open {e : Expr} (hk : groups e.level)
    (hopen : OpenAt e.level e.lexemes e) : e.Readable :=
  .of_own (hopen.readAt hk) fun _ => hopen

/-! ## Operators that group to the left -/

/-- A chain at a level takes an operator of its own and the operand behind it. -/
theorem openAt_chain {O : Type} {op? : TokenKind → Option O} {build : O → Expr → Expr → Nat → Expr}
    {k : Nat} {m : Mark} {op : O} {a b node : Expr}
    (hmore : ∀ n turns e, moreOf n turns e k = chain op? build (levelOf (k + 1) n) turns e)
    (hop : op? (.mark m) = some op) (hm : (TokenKind.mark m).binding? = some k) (hk : groups k)
    (hnode : ∀ a' b' l, a'.unplaced = a.unplaced → b'.unplaced = b.unplaced →
      (build op a' b' l).unplaced = node.located.unplaced)
    (ha : a.Readable) (hb : b.Readable) (hao : a.IsOperand) (hbo : b.IsOperand) :
    OpenAt k (a.lexemesAt k ++ .mark m :: b.lexemesAt (k + 1)) node := by
  intro n env s rest R hs hn hrest hgo
  have hk8 : k + 1 ≤ 8 := by
    simp only [groups, List.mem_cons, List.not_mem_nil, or_false] at hk
    omega
  simp only [List.append_assoc, List.cons_append, List.length_append, List.length_cons] at hs hn
  refine ha.openAt k hk n env s _ R hs
    (by simp only [List.length_append, List.length_cons]; omega) (fun j hj => ?_)
    fun a' t turns ht hturns ha' => ?_
  · change (TokenKind.mark m).binding? = some j at hj
    rw [hm] at hj
    cases hj
    exact Nat.lt_succ_self _
  · obtain ⟨turns, rfl⟩ := Nat.exists_eq_add_of_lt hturns
    simp only [List.length_append, List.length_cons] at hturns ⊢
    rw [hmore]
    unfold chain
    have hkind : t.reader.current.kind = .mark m := ht.kind
    rw [ends_current_bind, hkind, hop]
    dsimp only
    rw [ends_line_bind]
    refine (advance_faces ht (by rintro ⟨⟩)).bind fun _ u hu => ?_
    refine (hb.readAt (k + 1) hk8 n env u rest hu (by rw [List.length_append]; omega) hrest).bind
      fun b' v h => ?_
    obtain ⟨hv, hb'⟩ := h
    rw [← hmore]
    exact hgo _ v _ hv (by omega)
      (hnode _ _ _ (asOperand_of_read ha' hao) (asOperand_of_read hb' hbo))

theorem Readable.logical {op : LogicalOp} {a b : Expr} {l : Nat} (ha : a.Readable) (hb : b.Readable)
    (hao : a.IsOperand) (hbo : b.IsOperand) : (Expr.logical op a b l).Readable := by
  have hnode (a' b' : Expr) (l' : Nat) (ha : a'.unplaced = a.unplaced)
      (hb : b'.unplaced = b.unplaced) :
      (Expr.logical op a' b' l').unplaced = (Expr.logical op a b l).located.unplaced := by
    simp only [located, unplaced, ha, hb]
  cases op with
  | and =>
    exact .of_open (show groups 0 by decide)
      (openAt_chain (k := 0) (fun _ _ _ => rfl) rfl rfl (by decide) hnode ha hb hao hbo)
  | or =>
    exact .of_open (show groups 1 by decide)
      (openAt_chain (k := 1) (fun _ _ _ => rfl) rfl rfl (by decide) hnode ha hb hao hbo)

theorem Readable.arithmetic {op : ArithmeticOp} {a b : Expr} {l : Nat} (ha : a.Readable)
    (hb : b.Readable) (hao : a.IsOperand) (hbo : b.IsOperand) :
    (Expr.arithmetic op a b l).Readable := by
  have hnode (a' b' : Expr) (l' : Nat) (ha : a'.unplaced = a.unplaced)
      (hb : b'.unplaced = b.unplaced) :
      (Expr.arithmetic op a' b' l').unplaced = (Expr.arithmetic op a b l).located.unplaced := by
    simp only [located, unplaced, ha, hb]
  have sum {m : Mark} (h : sumOp? (.mark m) = some op)
      (hm : (TokenKind.mark m).binding? = some 3) :=
    openAt_chain (k := 3) (fun _ _ _ => rfl) h hm (by decide) hnode ha hb hao hbo
  have product {m : Mark} (h : productOp? (.mark m) = some op)
      (hm : (TokenKind.mark m).binding? = some 4) :=
    openAt_chain (k := 4) (fun _ _ _ => rfl) h hm (by decide) hnode ha hb hao hbo
  cases op with
  | add => exact .of_open (show groups 3 by decide) (sum rfl rfl)
  | sub => exact .of_open (show groups 3 by decide) (sum rfl rfl)
  | mul => exact .of_open (show groups 4 by decide) (product rfl rfl)
  | div => exact .of_open (show groups 4 by decide) (product rfl rfl)
  | mod => exact .of_open (show groups 4 by decide) (product rfl rfl)

/-- Comparisons do not chain: both operands are sums. -/
theorem Readable.relational {op : RelationalOp} {a b : Expr} {l : Nat} (ha : a.Readable)
    (hb : b.Readable) (hao : a.IsOperand) (hbo : b.IsOperand) :
    (Expr.relational op a b l).Readable := by
  have hop : relationalOp? (.mark op.mark) = some op := by cases op <;> rfl
  refine .of_own ?_ fun h => absurd h (show ¬groups 2 by decide)
  intro n env s rest hs hn hrest
  replace hrest : Stops 2 rest := hrest
  change s.Faces ((a.lexemesAt 3 ++ .mark op.mark :: b.lexemesAt 3) ++ rest) at hs
  change ((a.lexemesAt 3 ++ .mark op.mark :: b.lexemesAt 3) ++ rest).length < n at hn
  simp only [List.append_assoc, List.cons_append, List.length_append, List.length_cons] at hs hn
  have hafter : Stops 3 (.mark op.mark :: (b.lexemesAt 3 ++ rest)) := fun j hj => by
    have hbind := binding?_of_relationalOp? _ _ hop
    change (TokenKind.mark op.mark).binding? = some j at hj
    rw [hbind] at hj
    cases hj
    decide
  change (relationOf (unary n) n).Ends env s _ Never
  unfold relationOf
  refine (ha.readAt 3 (by decide) n env s _ hs
    (by simp only [List.length_append, List.length_cons]; omega) hafter).bind
    fun a' t ⟨ht, ha'⟩ => ?_
  have hkind : t.reader.current.kind = .mark op.mark := ht.kind
  rw [ends_current_bind, hkind, hop]
  dsimp only
  rw [ends_line_bind]
  refine (advance_faces ht nofun).bind fun _ u hu => ?_
  refine (hb.readAt 3 (by decide) n env u rest hu (by rw [List.length_append]; omega)
    (hrest.mono (by decide))).bind fun b' v ⟨hv, hb'⟩ => ?_
  rw [ends_pure]
  refine ⟨hv, ?_⟩
  simp only [located, unplaced, asOperand_of_read ha' hao, asOperand_of_read hb' hbo]

/-! ## Prefixes and increments -/

section

variable {e : Expr} {l : Nat}

/-- The two operators in front of an operand. -/
theorem readAt_signed {m : Mark} {node : Expr} (hm : m = .sub ∨ m = .not)
    (hnode : ∀ (a : Expr) l, a.unplaced = e.unplaced →
      (if m = .sub then Expr.negate a l else Expr.not a l).unplaced = node.located.unplaced)
    (he : e.Readable) (ho : e.IsOperand) : ReadAt 5 (.mark m :: e.lexemesAt 5) node := by
  intro n env s rest hs hn hrest
  cases n with
  | zero => exact absurd hn (Nat.not_lt_zero _)
  | succ n =>
    simp only [List.cons_append, List.length_cons] at hs hn
    change (unary (n + 1)).Ends env s _ Never
    unfold unary
    have hkind : s.reader.current.kind = .mark m := hs.kind
    have operand {t : ParseState} (ht : t.Faces (e.lexemesAt 5 ++ rest)) :=
      he.readAt 5 (by decide) n env t rest ht (by omega) hrest
    rw [ends_line_bind, ends_current_bind, hkind]
    rcases hm with rfl | rfl
    · refine (advance_faces hs (by decide)).bind fun _ t ht => (operand ht).bind fun a u h => ?_
      obtain ⟨hu, ha⟩ := h
      rw [ends_pure]
      exact ⟨hu, hnode _ _ (asOperand_of_read ha ho)⟩
    · refine (advance_faces hs (by decide)).bind fun _ t ht => (operand ht).bind fun a u h => ?_
      obtain ⟨hu, ha⟩ := h
      rw [ends_pure]
      exact ⟨hu, hnode _ _ (asOperand_of_read ha ho)⟩

theorem Readable.negate (he : e.Readable) (ho : e.IsOperand) : (Expr.negate e l).Readable := by
  refine .of_own (readAt_signed (m := .sub) (.inl rfl) (fun a l ha => ?_) he ho)
    fun h => absurd h (show ¬groups 5 by decide)
  simp only [if_true, located, unplaced, ha]

theorem Readable.not (he : e.Readable) (ho : e.IsOperand) : (Expr.not e l).Readable := by
  refine .of_own (readAt_signed (m := .not) (.inr rfl) (fun a l ha => ?_) he ho)
    fun h => absurd h (show ¬groups 5 by decide)
  simp only [reduceCtorEq, if_false, located, unplaced, ha]

theorem Readable.preIncrement {d : Direction} (he : e.Readable) (hl : e.isLocation = true) :
    (Expr.preIncrement e d l).Readable := by
  refine .of_own ?_ fun h => absurd h (show ¬groups 5 by decide)
  intro n env s rest hs hn hrest
  replace hrest : Stops 5 rest := hrest
  change s.Faces (.mark d.mark :: (e.lexemesAt 6 ++ rest)) at hs
  change (Lexeme.mark d.mark :: (e.lexemesAt 6 ++ rest)).length < n at hn
  rw [List.length_cons] at hn
  cases n with
  | zero => exact absurd hn (Nat.not_lt_zero _)
  | succ n =>
    have hdir : direction? (.mark d.mark) = some d := by cases d <;> rfl
    have hkind : s.reader.current.kind = .mark d.mark := hs.kind
    change (unary (n + 1)).Ends env s _ Never
    unfold unary
    rw [ends_line_bind, ends_current_bind, hkind]
    split
    · next h => cases d <;> cases h
    · next h => cases d <;> cases h
    · next h => cases d <;> cases h
    · rw [hdir]
      refine (advance_faces hs nofun).bind fun _ t ht => ?_
      refine (he.readAt 6 (by decide) (n + 1) env t rest ht (by omega)
        (hrest.mono (by decide))).bind fun a u ⟨hu, ha⟩ => ?_
      obtain ⟨haloc, haeq⟩ := isLocation_of_read ha hl
      rw [if_pos haloc, ends_pure]
      exact ⟨hu, by simp only [located, unplaced, haeq]⟩

theorem Readable.postIncrement {d : Direction} (he : e.Readable) (hl : e.isLocation = true) :
    (Expr.postIncrement e d l).Readable := by
  refine .of_own ?_ fun h => absurd h (show ¬groups 6 by decide)
  intro n env s rest hs hn hrest
  change s.Faces ((e.lexemesAt 7 ++ [.mark d.mark]) ++ rest) at hs
  change ((e.lexemesAt 7 ++ [Lexeme.mark d.mark]) ++ rest).length < n at hn
  rw [List.append_assoc, List.singleton_append] at hs hn
  cases n with
  | zero => exact absurd hn (Nat.not_lt_zero _)
  | succ n =>
    have hdir : direction? (.mark d.mark) = some d := by cases d <;> rfl
    have hafter : Stops 7 (.mark d.mark :: rest) := fun j hj => by
      change (TokenKind.mark d.mark).binding? = some j at hj
      rw [binding?_of_direction? _ d hdir] at hj
      cases hj
      decide
    refine ends_bind_assoc.1 ((he.readAt 7 (by decide) (n + 1) env s _ hs hn hafter).bind
      fun a t ⟨ht, ha⟩ => ?_)
    obtain ⟨haloc, haeq⟩ := isLocation_of_read ha hl
    have hkind : t.reader.current.kind = .mark d.mark := ht.kind
    rw [ends_current_bind, hkind, hdir]
    dsimp only
    rw [if_pos haloc, ends_line_bind]
    refine (advance_faces ht nofun).bind fun _ u hu => ?_
    rw [ends_pure]
    exact ⟨hu, by simp only [located, unplaced, haeq]⟩

end

/-! ## Lists of expressions -/

section

variable {n : Nat} {env : ParseEnv}

/-- More items are read up to a closing mark. -/
theorem moreItems_faces {close : Mark} (hclose : (TokenKind.mark close).binding? = none)
    (hcomma : close ≠ .comma) {es : List Expr} (hes : ∀ e ∈ es, e.Readable)
    (ho : ∀ e ∈ es, e.IsOperand) {turns : Nat} {s : ParseState} {rest : List Lexeme}
    (hs : s.Faces (moreLexemes 0 es ++ .mark close :: rest))
    (hturns : (moreLexemes 0 es ++ .mark close :: rest).length < turns) (hn : turns ≤ n) :
    (moreItems (levelOf 0 n) turns).Ends env s
      (fun as t => t.Faces (.mark close :: rest) ∧ unplacedAll as = unplacedAll es) Never := by
  induction es generalizing s turns with
  | nil =>
    obtain ⟨turns, rfl⟩ := Nat.exists_eq_add_of_lt hturns
    unfold moreItems
    have hmark : (s.reader.current.kind == .mark .comma) = false :=
      atMark_false hs fun h => hcomma (TokenKind.mark.inj h)
    rw [ends_atMark_bind, hmark]
    exact (ends_pure _ _).2 ⟨hs, rfl⟩
  | cons e es ih =>
    obtain ⟨turns, rfl⟩ := Nat.exists_eq_add_of_lt hturns
    change s.Faces (.mark .comma :: (e.lexemesAt 0 ++ moreLexemes 0 es) ++
      .mark close :: rest) at hs
    change (.mark .comma :: (e.lexemesAt 0 ++ moreLexemes 0 es) ++ .mark close :: rest).length <
      _ at hturns
    rw [List.cons_append, List.append_assoc] at hs hturns
    simp only [List.length_cons, List.length_append] at hturns hn ⊢
    unfold moreItems
    rw [ends_atMark_bind, if_pos (atMark_true hs)]
    refine (advance_faces hs nofun).bind fun _ t ht => ?_
    have hafter : Stops 0 (moreLexemes 0 es ++ .mark close :: rest) := by
      cases es with
      | nil => exact .of_none hclose
      | cons => exact .of_none rfl
    refine ((hes e List.mem_cons_self).readAt 0 (by decide) n env t _ ht
      (by simp only [List.length_cons, List.length_append]; omega) hafter).bind
      fun a u ⟨hu, ha⟩ => ?_
    refine (ih (fun e he => hes e (List.mem_cons_of_mem _ he))
      (fun e he => ho e (List.mem_cons_of_mem _ he)) hu
      (by simp only [List.length_cons, List.length_append]; omega) (by omega)).bind
      fun as v ⟨hv, has⟩ => ?_
    rw [ends_pure]
    exact ⟨hv, by rw [unplacedAll, unplacedAll, has,
      asOperand_of_read ha (ho e List.mem_cons_self)]⟩

/-- Items are read up to and with their closing mark. -/
theorem itemsUntil_faces {close : Mark} (hclose : (TokenKind.mark close).binding? = none)
    (hopens : opens (.mark close) = false) (hcomma : close ≠ .comma) {es : List Expr}
    (hes : ∀ e ∈ es, e.Readable) (hc : ∀ e ∈ es, e.Canonical) (ho : ∀ e ∈ es, e.IsOperand)
    {s : ParseState} {rest : List Lexeme} (hs : s.Faces (itemLexemes 0 es ++ .mark close :: rest))
    (hn : (itemLexemes 0 es ++ .mark close :: rest).length < n) :
    (itemsUntil close (levelOf 0 n) n).Ends env s
      (fun as t => t.Faces rest ∧ unplacedAll as = unplacedAll es) Never := by
  unfold itemsUntil
  cases es with
  | nil =>
    rw [ends_atMark_bind, if_pos (atMark_true hs)]
    refine (advance_faces hs nofun).bind fun _ t ht => ?_
    rw [ends_pure]
    exact ⟨ht, rfl⟩
  | cons e es =>
    change s.Faces ((e.lexemesAt 0 ++ moreLexemes 0 es) ++ .mark close :: rest) at hs
    change ((e.lexemesAt 0 ++ moreLexemes 0 es) ++ .mark close :: rest).length < n at hn
    rw [List.append_assoc] at hs hn
    have hmark : (s.reader.current.kind == .mark close) = false := by
      refine atMark_false hs fun h => ?_
      obtain ⟨l, ls, hls, hl⟩ := ((hc e List.mem_cons_self).opening.bracketed _).append
        (moreLexemes 0 es ++ .mark close :: rest)
      change e.lexemesAt 0 ++ _ = _ at hls
      rw [hls] at h
      rw [show l.kind = .mark close from h, hopens] at hl
      cases hl
    rw [ends_atMark_bind, hmark]
    have hafter : Stops 0 (moreLexemes 0 es ++ .mark close :: rest) := by
      cases es with
      | nil => exact .of_none hclose
      | cons => exact .of_none rfl
    refine ((hes e List.mem_cons_self).readAt 0 (by decide) n env s _ hs hn hafter).bind
      fun a t ⟨ht, ha⟩ => ?_
    rw [List.length_append] at hn
    refine (moreItems_faces hclose hcomma (fun e he => hes e (List.mem_cons_of_mem _ he))
      (fun e he => ho e (List.mem_cons_of_mem _ he)) ht (by omega) (Nat.le_refl n)).bind
      fun as u ⟨hu, has⟩ => ?_
    refine (expect_faces hu).bind fun _ v hv => ?_
    rw [ends_pure]
    exact ⟨hv, by rw [unplacedAll, unplacedAll, has,
      asOperand_of_read ha (ho e List.mem_cons_self)]⟩

end

/-! ## Selectors -/

section

variable {t f : Expr} {n : String} {u : Use} {l : Nat}

/-- Behind an open expression a selector takes its mark and what belongs to it. -/
theorem openAt_selector {m : Mark} {inside : List Lexeme} {e node : Expr}
    (hm : (TokenKind.mark m).binding? = some 7) (he : e.Readable)
    (hstep : ∀ n turns a env s rest (R : Expr → ParseState → Prop),
      a.unplaced = e.located.unplaced → s.Faces (.mark m :: (inside ++ rest)) →
      (inside ++ rest).length < n →
      (∀ b t, t.Faces rest → b.unplaced = node.located.unplaced →
        (selectors (levelOf 0 n) n turns b).Ends env t R Never) →
      (selectors (levelOf 0 n) n (turns + 1) a).Ends env s R Never) :
    OpenAt 7 (e.lexemesAt 7 ++ .mark m :: inside) node := by
  intro n env s rest R hs hn hrest hgo
  cases n with
  | zero => exact absurd hn (Nat.not_lt_zero _)
  | succ n =>
    rw [List.append_assoc, List.cons_append] at hs hn
    refine he.openAt 7 (by decide) (n + 1) env s _ R hs hn (fun j hj => ?_)
      fun a t turns ht hturns ha => ?_
    · change (TokenKind.mark m).binding? = some j at hj
      rw [hm] at hj
      cases hj
      decide
    · obtain ⟨turns, rfl⟩ := Nat.exists_eq_add_of_lt hturns
      rw [List.length_append, List.length_cons] at hn
      refine hstep n _ a env t rest R ha ht (by omega) fun b v hv hb => ?_
      refine hgo b v _ hv ?_ hb
      simp only [List.length_cons, List.length_append]
      omega

theorem Readable.member (ht : t.Readable) (ho : t.IsOperand) :
    (Expr.member t n u l).Readable := by
  refine .of_open (show groups 7 by decide)
    (openAt_selector (m := .dot) (e := t) rfl ht ?_)
  intro b turns a env s rest R ha hs hn hgo
  unfold selectors
  have hkind : s.reader.current.kind = .mark .dot := hs.kind
  rw [ends_line_bind, ends_current_bind, hkind]
  refine (advance_faces hs (by decide)).bind fun _ v hv => ?_
  refine (expectName_faces _ hv).bind fun name w h => ?_
  obtain ⟨hname, hw⟩ := h
  refine hgo _ w hw ?_
  simp only [located, unplaced, asOperand_of_read ha ho, hname]

theorem Readable.index {i : Expr} (ht : t.Readable) (hi : i.Readable) (hto : t.IsOperand)
    (hio : i.IsOperand) : (Expr.index t i u l).Readable := by
  refine .of_open (show groups 7 by decide)
    (openAt_selector (m := .leftBracket) (e := t) rfl ht ?_)
  intro b turns a env s rest R ha hs hn hgo
  rw [← lexemesAt_zero, List.append_assoc, List.singleton_append] at hs hn
  unfold selectors
  have hkind : s.reader.current.kind = .mark .leftBracket := hs.kind
  rw [ends_line_bind, ends_current_bind, hkind]
  refine (advance_faces hs (by decide)).bind fun _ v hv => ?_
  refine (hi.readAt 0 (by decide) b env v _ hv hn (.of_none rfl)).bind fun p w h => ?_
  obtain ⟨hw, hp⟩ := h
  refine (expect_faces hw).bind fun _ x hx => ?_
  refine hgo _ x hx ?_
  simp only [located, unplaced, asOperand_of_read ha hto, asOperand_of_read hp hio]

theorem Readable.call {es : List Expr} (hf : f.Readable) (hfo : f.IsOperand)
    (hes : ∀ e ∈ es, e.Readable) (hc : ∀ e ∈ es, e.Canonical) (ho : ∀ e ∈ es, e.IsOperand) :
    (Expr.call f es l).Readable := by
  refine .of_open (show groups 7 by decide)
    (openAt_selector (m := .leftParen) (e := f) rfl hf ?_)
  intro b turns a env s rest R ha hs hn hgo
  rw [List.append_assoc, List.singleton_append] at hs hn
  unfold selectors
  have hkind : s.reader.current.kind = .mark .leftParen := hs.kind
  rw [ends_line_bind, ends_current_bind, hkind]
  refine (advance_faces hs (by decide)).bind fun _ v hv => ?_
  refine (itemsUntil_faces rfl rfl (by decide) hes hc ho hv hn).bind fun as w h => ?_
  obtain ⟨hw, has⟩ := h
  refine hgo _ w hw ?_
  simp only [located, unplaced, asOperand_of_read ha hfo, has]

end

/-! ## Primaries -/

/-- A primary is read at the tightest level. -/
theorem Readable.primary {e : Expr} (hlevel : e.level = 8)
    (h : ∀ n env s rest, s.Faces (e.lexemes ++ rest) → (e.lexemes ++ rest).length < n + 1 →
      (primaryOf (unary n) n).Ends env s (fun a t => t.Faces rest ∧
        a.unplaced = e.located.unplaced) Never) : e.Readable := by
  refine .of_own ?_ fun hg => ?_
  · rw [hlevel]
    intro n env s rest hs hn _
    cases n with
    | zero => exact absurd hn (Nat.not_lt_zero _)
    | succ n => exact h n env s rest hs hn
  · rw [hlevel] at hg
    exact absurd hg (by decide)

section

variable {l : Nat}

theorem Readable.integer (v : Nat) : (Expr.integer v l).Readable := by
  refine .primary rfl fun n env s rest hs _ => ?_
  change s.Faces (.integer v :: rest) at hs
  unfold primaryOf
  rw [ends_token_bind]
  dsimp only
  rw [show s.reader.current.kind = .integer from hs.kind]
  dsimp only
  rw [Lexeme.integerValue_of_lexeme hs.current]
  refine (advance_faces hs nofun).bind fun _ t ht => ?_
  rw [ends_pure]
  exact ⟨ht, rfl⟩

theorem Readable.string (v : String) : (Expr.string v l).Readable := by
  refine .primary rfl fun n env s rest hs _ => ?_
  change s.Faces (.string v :: rest) at hs
  unfold primaryOf
  rw [ends_token_bind]
  dsimp only
  rw [show s.reader.current.kind = .string from hs.kind]
  refine (advance_faces hs nofun).bind fun _ t ht => ?_
  rw [ends_pure]
  have hv : s.reader.current.value = v := congrArg Lexeme.value hs.current
  exact ⟨ht, by rw [hv]; rfl⟩

theorem Readable.boolean (v : Bool) : (Expr.boolean v l).Readable := by
  refine .primary rfl fun n env s rest hs _ => ?_
  change s.Faces (.keyword (if v then .true else .false) :: rest) at hs
  have hkind := hs.kind
  unfold primaryOf
  rw [ends_token_bind]
  dsimp only
  cases v with
  | true =>
    rw [show s.reader.current.kind = .keyword .true from hkind]
    refine (advance_faces hs nofun).bind fun _ t ht => ?_
    rw [ends_pure]
    exact ⟨ht, rfl⟩
  | false =>
    rw [show s.reader.current.kind = .keyword .false from hkind]
    refine (advance_faces hs nofun).bind fun _ t ht => ?_
    rw [ends_pure]
    exact ⟨ht, rfl⟩

theorem Readable.undefined : (Expr.undefined l).Readable := by
  refine .primary rfl fun n env s rest hs _ => ?_
  change s.Faces (.keyword .undefined :: rest) at hs
  unfold primaryOf
  rw [ends_token_bind]
  dsimp only
  rw [show s.reader.current.kind = .keyword .undefined from hs.kind]
  refine (advance_faces hs nofun).bind fun _ t ht => ?_
  rw [ends_pure]
  exact ⟨ht, rfl⟩

theorem Readable.name (v : String) (u : Use) : (Expr.name v u l).Readable := by
  refine .primary rfl fun n env s rest hs _ => ?_
  change s.Faces (.name v :: rest) at hs
  unfold primaryOf
  rw [ends_token_bind]
  dsimp only
  rw [show s.reader.current.kind = .ident from hs.kind]
  refine (advance_faces hs nofun).bind fun _ t ht => ?_
  rw [ends_pure]
  have hv : s.reader.current.value = v := congrArg Lexeme.value hs.current
  exact ⟨ht, by rw [hv]; rfl⟩

theorem Readable.list {es : List Expr} (hes : ∀ e ∈ es, e.Readable) (hc : ∀ e ∈ es, e.Canonical)
    (ho : ∀ e ∈ es, e.IsOperand) : (Expr.list es l).Readable := by
  refine .primary rfl fun n env s rest hs hn => ?_
  rw [lexemes, List.cons_append, List.append_assoc, List.singleton_append] at hs hn
  rw [List.length_cons] at hn
  unfold primaryOf
  rw [ends_token_bind]
  dsimp only
  rw [show s.reader.current.kind = .mark .leftBracket from hs.kind]
  refine (advance_faces hs nofun).bind fun _ t ht => ?_
  refine (itemsUntil_faces rfl rfl (by decide) hes hc ho ht (by omega)).bind
    fun as u ⟨hu, has⟩ => ?_
  rw [ends_pure]
  exact ⟨hu, by simp only [located, unplaced, has]⟩

theorem Readable.new {type : String} {es : List Expr} (hes : ∀ e ∈ es, e.Readable)
    (hc : ∀ e ∈ es, e.Canonical) (ho : ∀ e ∈ es, e.IsOperand) : (Expr.new type es l).Readable := by
  refine .primary rfl fun n env s rest hs hn => ?_
  simp only [lexemes, Lexeme.parens, List.cons_append, List.append_assoc, List.nil_append,
    List.length_cons] at hs hn
  unfold primaryOf
  rw [ends_token_bind]
  dsimp only
  rw [show s.reader.current.kind = .keyword .new from hs.kind]
  refine (advance_faces hs (by decide)).bind fun _ t ht => ?_
  refine (expectName_faces _ ht).bind fun name u h => ?_
  obtain ⟨hname, hu⟩ := h
  rw [ends_atMark_bind, if_pos (atMark_true hu)]
  refine (advance_faces hu (by decide)).bind fun _ v hv => ?_
  refine (itemsUntil_faces rfl rfl (by decide) hes hc ho hv (by omega)).bind
    fun as w h => ?_
  obtain ⟨hw, has⟩ := h
  rw [ends_pure]
  exact ⟨hw, by simp only [located, unplaced, has, hname]⟩

/-- A component of a vector or color is a sum. -/
theorem component_faces {c : Expr} (hc : c.Readable) (ho : c.IsOperand) {n : Nat} {env : ParseEnv}
    {s : ParseState} {rest : List Lexeme} (hs : s.Faces (c.lexemesAt 3 ++ rest))
    (hn : (c.lexemesAt 3 ++ rest).length < n) (hrest : Stops 3 rest) :
    (sumOf (unary n) n).Ends env s
      (fun a t => t.Faces rest ∧ a.asOperand.unplaced = c.unplaced) Never :=
  (hc.readAt 3 (by decide) n env s rest hs hn hrest).imp
    fun _ _ ⟨ht, ha⟩ => ⟨ht, asOperand_of_read ha ho⟩

theorem Readable.vector {x y : Expr} (hx : x.Readable) (hy : y.Readable) (hxo : x.IsOperand)
    (hyo : y.IsOperand) : (Expr.vector x y l).Readable := by
  refine .primary rfl fun n env s rest hs hn => ?_
  rw [lexemes] at hs hn
  change s.Faces (.mark .less :: (x.lexemesAt 3 ++ .mark .comma ::
    (y.lexemesAt 3 ++ [.mark .greater])) ++ rest) at hs
  change (Lexeme.mark .less :: (x.lexemesAt 3 ++ .mark .comma ::
    (y.lexemesAt 3 ++ [.mark .greater])) ++ rest).length < n + 1 at hn
  simp only [List.cons_append, List.append_assoc, List.nil_append, List.length_cons,
    List.length_append] at hs hn
  unfold primaryOf
  rw [ends_token_bind]
  dsimp only
  rw [show s.reader.current.kind = .mark .less from hs.kind]
  dsimp only
  unfold vectorOf
  rw [ends_line_bind]
  refine (advance_faces hs nofun).bind fun _ t ht => ?_
  refine (component_faces hx hxo ht
    (by simp only [List.length_append, List.length_cons]; omega) (.of_none rfl)).bind
    fun a u ⟨hu, ha⟩ => ?_
  refine (expect_faces hu).bind fun _ v hv => ?_
  have hafter : Stops 3 (.mark .greater :: rest) := fun j hj => by
    cases (show some 2 = some j from hj)
    decide
  refine (component_faces hy hyo hv
    (by simp only [List.length_append, List.length_cons]; omega) hafter).bind
    fun b w ⟨hw, hb⟩ => ?_
  refine (expect_faces hw).bind fun _ z hz => ?_
  rw [ends_pure]
  exact ⟨hz, by simp only [located, unplaced, ha, hb]⟩

/-- The bar behind the components of a color. -/
theorem closeColor_faces (as : List Expr) {cs : List Expr} {l' : Nat} {env : ParseEnv}
    {s : ParseState} {rest : List Lexeme} (hs : s.Faces (.mark .bar :: rest))
    (has : as.map (unplaced ∘ Expr.asOperand) = cs.map unplaced) : (do
      expect .bar
      return Expr.color (as.map Expr.asOperand) l').Ends env s
        (fun a t => t.Faces rest ∧ a.unplaced = (Expr.color cs l).located.unplaced) Never := by
  refine (expect_faces hs).bind fun _ t ht => ?_
  rw [ends_pure]
  refine ⟨ht, ?_⟩
  simp only [located, unplaced, unplacedAll_eq, List.map_map, has]

/-- A color has one, three or four sums for components. -/
theorem Readable.color {cs : List Expr} (hlen : cs.length = 1 ∨ cs.length = 3 ∨ cs.length = 4)
    (hcs : ∀ c ∈ cs, c.Readable) (ho : ∀ c ∈ cs, c.IsOperand) : (Expr.color cs l).Readable := by
  refine .primary rfl fun n env s rest hs hn => ?_
  simp only [lexemes, List.cons_append, List.append_assoc, List.nil_append, List.length_cons]
    at hs hn
  replace hn : (itemLexemes 3 cs ++ .mark .bar :: rest).length < n := by omega
  -- a component ends at a comma or at the bar behind the last one
  have component {c : Expr} {t : ParseState} {ms : List Lexeme} (hc : c ∈ cs)
      (ht : t.Faces (c.lexemesAt 3 ++ ms)) (hms : (c.lexemesAt 3 ++ ms).length < n)
      (hafter : (Lexeme.firstKind ms).binding? = none) :
      (sumOf (unary n) n).Ends env t
        (fun a u => u.Faces ms ∧ a.asOperand.unplaced = c.unplaced) Never :=
    component_faces (hcs c hc) (ho c hc) ht hms (.of_none hafter)
  have comma {t : ParseState} {ms : List Lexeme} (ht : t.Faces (.mark .comma :: ms)) :=
    (advance_faces ht nofun : advance.Ends env t (fun _ u => u.Faces ms) Never)
  unfold primaryOf
  rw [ends_token_bind]
  dsimp only
  rw [show s.reader.current.kind = .mark .bar from hs.kind]
  dsimp only
  unfold colorOf
  rw [ends_line_bind]
  refine (advance_faces hs nofun).bind fun _ t ht => ?_
  match cs, hlen with
  | [c], _ =>
    have hitems : itemLexemes 3 [c] = c.lexemesAt 3 := List.append_nil _
    rw [hitems] at ht hn
    refine (component (by simp) ht hn rfl).bind fun a u ⟨hu, ha⟩ => ?_
    have hmark : (u.reader.current.kind == .mark .comma) = false := atMark_false hu nofun
    rw [ends_atMark_bind, hmark]
    exact closeColor_faces [a] hu (by simp [ha])
  | c :: d :: e :: more, _ =>
    have hmore : more = [] ∨ ∃ f, more = [f] := by
      match more, hlen with
      | [], _ => exact .inl rfl
      | [f], _ => exact .inr ⟨f, rfl⟩
    have hitems : itemLexemes 3 (c :: d :: e :: more) = c.lexemesAt 3 ++ .mark .comma ::
        (d.lexemesAt 3 ++ .mark .comma :: (e.lexemesAt 3 ++ moreLexemes 3 more)) := by
      simp [itemLexemes, moreLexemes, lexemesAt]
    simp only [hitems, List.append_assoc, List.cons_append, List.length_append,
      List.length_cons] at ht hn
    refine (component (by simp) ht ?_ rfl).bind fun a u ⟨hu, ha⟩ => ?_
    · simp only [List.length_append, List.length_cons]
      omega
    rw [ends_atMark_bind, if_pos (atMark_true hu)]
    refine (comma hu).bind fun _ v hv => (component (by simp) hv ?_ rfl).bind fun b w ⟨hw, hb⟩ => ?_
    · simp only [List.length_append, List.length_cons]
      omega
    refine (expect_faces hw).bind fun _ x hx => (component (by simp) hx ?_ ?_).bind
      fun g y ⟨hy, hg⟩ => ?_
    · simp only [List.length_append, List.length_cons]
      omega
    · obtain rfl | ⟨f, rfl⟩ := hmore <;> rfl
    -- a fourth component stands behind another comma
    obtain rfl | ⟨f, rfl⟩ := hmore
    · have hmark : (y.reader.current.kind == .mark .comma) = false := atMark_false hy nofun
      rw [ends_atMark_bind, hmark]
      exact closeColor_faces [a, b, g] hy (by simp [ha, hb, hg])
    · simp only [moreLexemes, List.append_nil, List.cons_append, List.length_cons] at hy hn
      rw [ends_atMark_bind, if_pos (atMark_true hy)]
      refine (comma hy).bind fun _ z hz => (component (by simp) hz ?_ rfl).bind
        fun h q ⟨hq, hh⟩ => ?_
      · simp only [lexemesAt, List.length_append, List.length_cons]
        omega
      exact closeColor_faces [a, b, g, h] hq (by simp [ha, hb, hg, hh])

end

/-- The parser reads what was printed of a canonical expression. -/
theorem Canonical.readable {e : Expr} (h : e.Canonical) : e.Readable := by
  induction h with
  | integer => exact .integer _
  | string => exact .string _
  | boolean => exact .boolean _
  | undefined => exact .undefined
  | color hlen ho _ ih => exact .color hlen ih ho
  | vector hx hy _ _ ihx ihy => exact .vector ihx ihy hx hy
  | list ho hc ih => exact .list ih hc ho
  | name => exact .name _ _
  | member ho _ _ ih => exact .member ih ho
  | index ht hi _ _ iht ihi => exact .index iht ihi ht hi
  | call hf ho _ hc ihf ih => exact .call ihf hf ih hc ho
  | new _ ho hc ih => exact .new ih hc ho
  | negate ho _ ih => exact .negate ih ho
  | not ho _ ih => exact .not ih ho
  | preIncrement hl _ ih => exact .preIncrement ih hl
  | postIncrement hl _ ih => exact .postIncrement ih hl
  | arithmetic ha hb _ _ iha ihb => exact .arithmetic iha ihb ha hb
  | relational ha hb _ _ iha ihb => exact .relational iha ihb ha hb
  | logical ha hb _ _ iha ihb => exact .logical iha ihb ha hb

end Expr

end CellScript
