import CellScript.Proofs.Print.Reading

/-!
# Levels of binding

Each level of the parser reads the expressions that bind at least as tightly. A level of operators
that group to the left, and likewise the selectors, goes on behind an operand as long as an operator
of its own follows, so that what it has read so far is open to become a left operand.

* `Parser.levelOf`: the parser of a level;
* `Expr.ReadAt k`: the parser of level `k` takes the lexemes and gives the expression, if no
  operator of that level or a tighter one follows;
* `Expr.OpenAt k`: it gets as far as the expression, and then goes on as it does behind an operand;
* `Expr.ReadAt.down`, `Expr.ReadAt.parens`: looser levels, and any level with parentheses.
-/

namespace CellScript

/-! ## Trees without places -/

namespace Expr

theorem unplacedAll_eq (es : List Expr) : unplacedAll es = es.map unplaced := by
  induction es with
  | nil => rfl
  | cons e es ih => rw [unplacedAll, ih, List.map_cons]

theorem unplaced_asOperand (e : Expr) : e.asOperand.unplaced = e.unplaced.asOperand := by
  cases e <;> rfl

theorem isLocation_unplaced (e : Expr) : e.unplaced.isLocation = e.isLocation := by cases e <;> rfl

theorem asOperand_located (e : Expr) : e.located.asOperand = e.asOperand := by cases e <;> rfl

theorem located_of_isLocation {e : Expr} (h : e.isLocation = true) : e.located = e := by
  cases e with
  | name n u l => exact congrArg (Expr.name n · l) (eq_of_beq h).symm
  | member t n u l => exact congrArg (Expr.member t n · l) (eq_of_beq h).symm
  | index t i u l => exact congrArg (Expr.index t i · l) (eq_of_beq h).symm
  | _ => rfl

/-- What was read, as an operand. -/
theorem asOperand_of_read {a e : Expr} (h : a.unplaced = e.located.unplaced) (he : e.IsOperand) :
    a.asOperand.unplaced = e.unplaced := by
  rw [unplaced_asOperand, h, ← unplaced_asOperand, asOperand_located, he]

/-- What was read, as a place. -/
theorem isLocation_of_read {a e : Expr} (h : a.unplaced = e.located.unplaced)
    (he : e.isLocation = true) : a.isLocation = true ∧ a.unplaced = e.unplaced := by
  rw [located_of_isLocation he] at h
  rw [← isLocation_unplaced, h, isLocation_unplaced]
  exact ⟨he, rfl⟩

end Expr

/-! ## What may follow -/

/-- The level at which a token goes on behind an expression. -/
def TokenKind.binding? : TokenKind → Option Nat
  | .mark .and => some 0
  | .mark .or => some 1
  | .mark .equal | .mark .notEqual | .mark .less | .mark .lessEqual | .mark .greater
  | .mark .greaterEqual => some 2
  | .mark .add | .mark .sub => some 3
  | .mark .mul | .mark .div | .mark .mod => some 4
  | .mark .increment | .mark .decrement => some 6
  | .mark .dot | .mark .leftBracket | .mark .leftParen => some 7
  | _ => none

/-- Behind an expression of the level nothing goes on that binds as tightly. -/
def Stops (level : Nat) (rest : List Lexeme) : Prop :=
  ∀ k, (Lexeme.firstKind rest).binding? = some k → k < level

theorem Stops.mono {k j : Nat} {rest : List Lexeme} (h : Stops k rest) (hj : k ≤ j) :
    Stops j rest :=
  fun i hi => Nat.lt_of_lt_of_le (h i hi) hj

theorem Stops.of_none {k : Nat} {rest : List Lexeme}
    (h : (Lexeme.firstKind rest).binding? = none) : Stops k rest := by
  intro j hj
  rw [h] at hj
  cases hj

/-- A token that does not go on at a level is none of its operators. -/
theorem TokenKind.op?_eq_none {O : Type} {op? : TokenKind → Option O} {k : Nat} {kind : TokenKind}
    (hop : ∀ kind op, op? kind = some op → kind.binding? = some k) (h : kind.binding? ≠ some k) :
    op? kind = none :=
  Option.eq_none_iff_forall_ne_some.2 fun op hk => h (hop kind op hk)

/-- No operator of the level follows. -/
theorem Stops.eq_none {O : Type} {op? : TokenKind → Option O} {k : Nat} {rest : List Lexeme}
    (h : Stops k rest) (hop : ∀ kind op, op? kind = some op → kind.binding? = some k) :
    op? (Lexeme.firstKind rest) = none :=
  TokenKind.op?_eq_none hop fun hk => absurd (h k hk) (Nat.lt_irrefl k)

namespace Parser

theorem binding?_of_andOp? (kind : TokenKind) (op : LogicalOp) (h : andOp? kind = some op) :
    kind.binding? = some 0 := by
  unfold andOp? at h
  split at h
  · rfl
  · cases h

theorem binding?_of_orOp? (kind : TokenKind) (op : LogicalOp) (h : orOp? kind = some op) :
    kind.binding? = some 1 := by
  unfold orOp? at h
  split at h
  · rfl
  · cases h

theorem binding?_of_relationalOp? (kind : TokenKind) (op : RelationalOp)
    (h : relationalOp? kind = some op) : kind.binding? = some 2 := by
  unfold relationalOp? at h
  split at h
  case h_7 => cases h
  all_goals rfl

theorem binding?_of_sumOp? (kind : TokenKind) (op : ArithmeticOp) (h : sumOp? kind = some op) :
    kind.binding? = some 3 := by
  unfold sumOp? at h
  split at h
  case h_3 => cases h
  all_goals rfl

theorem binding?_of_productOp? (kind : TokenKind) (op : ArithmeticOp)
    (h : productOp? kind = some op) : kind.binding? = some 4 := by
  unfold productOp? at h
  split at h
  case h_4 => cases h
  all_goals rfl

theorem binding?_of_direction? (kind : TokenKind) (d : Direction) (h : direction? kind = some d) :
    kind.binding? = some 6 := by
  unfold direction? at h
  split at h
  case h_3 => cases h
  all_goals rfl

/-! ## The parsers of the levels -/

/-- The parser of a level. The tightest three stand inside the parser of prefixes, whose bound is
larger by one. -/
def levelOf : Nat → Nat → Parser Expr
  | 0, n => expressionOf (unary n) n
  | 1, n => disjunctionOf (unary n) n
  | 2, n => relationOf (unary n) n
  | 3, n => sumOf (unary n) n
  | 4, n => productOf (unary n) n
  | 5, n => unary n
  | 6, n + 1 => suffixedOf (unary n) n
  | 7, n + 1 => do selectors (expressionOf (unary n) n) n n (← primaryOf (unary n) n)
  | _, n + 1 => primaryOf (unary n) n
  | _, 0 => throw .outOfFuel

/-- How the parser of a level goes on behind an operand, with a bound on the turns. -/
def moreOf (n turns : Nat) (e : Expr) : Nat → Parser Expr
  | 0 => chain andOp? .logical (levelOf 1 n) turns e
  | 1 => chain orOp? .logical (levelOf 2 n) turns e
  | 3 => chain sumOp? .arithmetic (levelOf 4 n) turns e
  | 4 => chain productOp? .arithmetic (levelOf 5 n) turns e
  | 7 => selectors (expressionOf (unary (n - 1)) (n - 1)) (n - 1) turns e
  | _ => pure e

/-- The levels that group to the left. -/
def groups (level : Nat) : Prop := level ∈ [0, 1, 3, 4, 7]

instance : DecidablePred groups := fun level =>
  inferInstanceAs (Decidable (level ∈ [0, 1, 3, 4, 7]))

/-- Where no operator of its own follows, a chain is at its end. -/
theorem ends_chain {O : Type} {op? : TokenKind → Option O} {build : O → Expr → Expr → Nat → Expr}
    {next : Parser Expr} {turns : Nat} {e : Expr} {env : ParseEnv} {s : ParseState}
    {Q : Expr → ParseState → Prop} {F : ParseFailure → Prop}
    (hop : op? s.reader.current.kind = none) :
    (chain op? build next (turns + 1) e).Ends env s Q F ↔ Q e s := by
  unfold chain
  rw [ends_current_bind, hop, ends_pure]

/-- Where none of them follows, so are selectors. -/
theorem ends_selectors {expression : Parser Expr} {bound turns : Nat} {e : Expr} {env : ParseEnv}
    {s : ParseState} {Q : Expr → ParseState → Prop} {F : ParseFailure → Prop}
    (hs : s.reader.current.kind.binding? ≠ some 7) :
    (selectors expression bound (turns + 1) e).Ends env s Q F ↔ Q e s := by
  have hkind {m : Mark} (hm : (TokenKind.mark m).binding? = some 7) :
      s.reader.current.kind ≠ .mark m := fun h => hs (h ▸ hm)
  unfold selectors
  rw [ends_line_bind, ends_current_bind]
  split
  · next h => exact absurd h (hkind rfl)
  · next h => exact absurd h (hkind rfl)
  · next h => exact absurd h (hkind rfl)
  · rw [ends_pure]

theorem chain_stops {O : Type} {op? : TokenKind → Option O} {build : O → Expr → Expr → Nat → Expr}
    {next : Parser Expr} {turns : Nat} {e : Expr} {env : ParseEnv} {s : ParseState}
    {rest : List Lexeme} (hs : s.Faces rest) (hturns : rest.length < turns)
    (hop : op? (Lexeme.firstKind rest) = none) :
    (chain op? build next turns e).Ends env s (fun a t => t.Faces rest ∧ a = e) Never := by
  obtain ⟨turns, rfl⟩ := Nat.exists_eq_add_of_lt hturns
  exact (ends_chain (hs.kind ▸ hop)).2 ⟨hs, rfl⟩

theorem selectors_stops {expression : Parser Expr} {bound turns : Nat} {e : Expr} {env : ParseEnv}
    {s : ParseState} {rest : List Lexeme} (hs : s.Faces rest) (hturns : rest.length < turns)
    (hrest : Stops 7 rest) :
    (selectors expression bound turns e).Ends env s (fun a t => t.Faces rest ∧ a = e) Never := by
  obtain ⟨turns, rfl⟩ := Nat.exists_eq_add_of_lt hturns
  refine (ends_selectors fun h => ?_).2 ⟨hs, rfl⟩
  rw [hs.kind] at h
  exact absurd (hrest 7 h) (Nat.lt_irrefl 7)

/-- Where no operator of the level follows, the operand is all there is. -/
theorem moreOf_stops {n turns k : Nat} {e : Expr} {env : ParseEnv} {s : ParseState}
    {rest : List Lexeme} (hk : groups k) (hs : s.Faces rest) (hturns : rest.length < turns)
    (hrest : Stops k rest) :
    (moreOf n turns e k).Ends env s (fun a t => t.Faces rest ∧ a = e) Never := by
  simp only [groups, List.mem_cons, List.not_mem_nil, or_false] at hk
  rcases hk with rfl | rfl | rfl | rfl | rfl
  · exact chain_stops hs hturns (hrest.eq_none binding?_of_andOp?)
  · exact chain_stops hs hturns (hrest.eq_none binding?_of_orOp?)
  · exact chain_stops hs hturns (hrest.eq_none binding?_of_sumOp?)
  · exact chain_stops hs hturns (hrest.eq_none binding?_of_productOp?)
  · exact selectors_stops hs hturns hrest

end Parser

/-! ## Reading at a level -/

namespace Expr

open CellScript.Parser

/-- The parser of the level takes the lexemes and gives the expression, with places as they are
read, if nothing follows that binds as tightly. -/
def ReadAt (level : Nat) (ls : List Lexeme) (e : Expr) : Prop :=
  ∀ n env s rest, s.Faces (ls ++ rest) → (ls ++ rest).length < n → Stops level rest →
    (levelOf level n).Ends env s (fun a t => t.Faces rest ∧ a.unplaced = e.located.unplaced) Never

/-- The parser of the level gets as far as the expression, and goes on as behind an operand. -/
def OpenAt (level : Nat) (ls : List Lexeme) (e : Expr) : Prop :=
  ∀ n env s rest (R : Expr → ParseState → Prop), s.Faces (ls ++ rest) → (ls ++ rest).length < n →
    Stops (level + 1) rest →
    (∀ a t turns, t.Faces rest → rest.length < turns → a.unplaced = e.located.unplaced →
      (moreOf n turns a level).Ends env t R Never) →
    (levelOf level n).Ends env s R Never

variable {k : Nat} {e : Expr} {ls : List Lexeme}

/-- An operand of the next level is open at a level. -/
theorem ReadAt.openAt (hk : groups k) (hls : ls ≠ []) (h : ReadAt (k + 1) ls e) :
    OpenAt k ls e := by
  intro n env s rest R hs hn hrest hmore
  have hpos : 0 < ls.length := List.length_pos_iff.2 hls
  rw [List.length_append] at hn
  have hturns : rest.length < n := by omega
  have operand := h n env s rest hs (by rw [List.length_append]; exact hn) hrest
  simp only [groups, List.mem_cons, List.not_mem_nil, or_false] at hk
  rcases hk with rfl | rfl | rfl | rfl | rfl
  · exact operand.bind fun a t ⟨ht, ha⟩ => hmore a t n ht hturns ha
  · exact operand.bind fun a t ⟨ht, ha⟩ => hmore a t n ht hturns ha
  · exact operand.bind fun a t ⟨ht, ha⟩ => hmore a t n ht hturns ha
  · exact operand.bind fun a t ⟨ht, ha⟩ => hmore a t n ht hturns ha
  · cases n with
    | zero => omega
    | succ n => exact operand.bind fun a t ⟨ht, ha⟩ => hmore a t n ht (by omega) ha

/-- If nothing goes on, what is open is read. -/
theorem OpenAt.readAt (hk : groups k) (h : OpenAt k ls e) : ReadAt k ls e := by
  intro n env s rest hs hn hrest
  refine h n env s rest _ hs hn (hrest.mono (Nat.le_succ k)) fun a t turns ht hturns ha => ?_
  exact (moreOf_stops hk ht hturns hrest).imp fun b u ⟨hu, hb⟩ => ⟨hu, hb ▸ ha⟩

/-- A prefix opens no primary, so what is read as a suffixed expression begins with none. -/
theorem not_prefix_of_suffixed {n : Nat} {env : ParseEnv} {s : ParseState}
    {Q : Expr → ParseState → Prop} (h : (suffixedOf (unary n) n).Ends env s Q Never) :
    s.reader.current.kind ≠ .mark .add ∧ s.reader.current.kind ≠ .mark .sub ∧
      s.reader.current.kind ≠ .mark .not ∧ direction? s.reader.current.kind = none := by
  have refused {kind : TokenKind} (hk : s.reader.current.kind = kind)
      (hfail : (primaryOf (unary n) n).Ends env s (fun _ _ => False) fun _ => True) : False :=
    Ends.bind_absurd hfail h
  have fails {m : Mark} (hk : s.reader.current.kind = .mark m)
      (hm : m = .add ∨ m = .sub ∨ m = .not ∨ m = .increment ∨ m = .decrement) :
      (primaryOf (unary n) n).Ends env s (fun _ _ => False) fun _ => True := by
    unfold primaryOf
    rw [ends_token_bind]
    dsimp only
    rw [hk]
    rcases hm with rfl | rfl | rfl | rfl | rfl <;> exact (ends_fail _ _).2 trivial
  refine ⟨fun hk => refused hk (fails hk (.inl rfl)),
    fun hk => refused hk (fails hk (.inr (.inl rfl))),
    fun hk => refused hk (fails hk (.inr (.inr (.inl rfl)))), ?_⟩
  unfold direction?
  split
  · next hk => exact (refused hk (fails hk (.inr (.inr (.inr (.inl rfl)))))).elim
  · next hk => exact (refused hk (fails hk (.inr (.inr (.inr (.inr rfl)))))).elim
  · rfl

/-- What a level reads, every looser level reads. -/
theorem ReadAt.pred (hk : k < 8) (hls : ls ≠ []) (h : ReadAt (k + 1) ls e) : ReadAt k ls e := by
  by_cases hg : groups k
  · exact (h.openAt hg hls).readAt hg
  obtain rfl | rfl | rfl : k = 2 ∨ k = 5 ∨ k = 6 := by
    simp only [groups, List.mem_cons, List.not_mem_nil, or_false, not_or] at hg
    omega
  · intro n env s rest hs hn hrest
    refine (h n env s rest hs hn (hrest.mono (by decide))).bind fun a t ⟨ht, ha⟩ => ?_
    rw [ends_current_bind, ht.kind, hrest.eq_none binding?_of_relationalOp?, ends_pure]
    exact ⟨ht, ha⟩
  · intro n env s rest hs hn hrest
    cases n with
    | zero => exact absurd hn (Nat.not_lt_zero _)
    | succ n =>
      have hsuffixed := h (n + 1) env s rest hs hn (hrest.mono (by decide))
      obtain ⟨hadd, hsub, hnot, hdir⟩ := not_prefix_of_suffixed hsuffixed
      change (unary (n + 1)).Ends env s _ Never
      unfold unary
      rw [ends_line_bind, ends_current_bind]
      split
      · next hk => exact absurd hk hadd
      · next hk => exact absurd hk hsub
      · next hk => exact absurd hk hnot
      · rw [hdir]
        exact hsuffixed
  · intro n env s rest hs hn hrest
    cases n with
    | zero => exact absurd hn (Nat.not_lt_zero _)
    | succ n =>
      refine ends_bind_assoc.1 ((h (n + 1) env s rest hs hn (hrest.mono (by decide))).bind
        fun a t ⟨ht, ha⟩ => ?_)
      rw [ends_current_bind, ht.kind, hrest.eq_none binding?_of_direction?, ends_pure]
      exact ⟨ht, ha⟩

theorem ReadAt.down {j : Nat} (hj : k ≤ j) (hj8 : j ≤ 8) (hls : ls ≠ []) (h : ReadAt j ls e) :
    ReadAt k ls e := by
  induction j with
  | zero =>
    cases Nat.le_zero.1 hj
    exact h
  | succ j ih =>
    rcases Nat.lt_or_eq_of_le hj with hlt | rfl
    · exact ih (by omega) (by omega) (h.pred (by omega) hls)
    · exact h

/-- In parentheses every expression is a primary. -/
theorem ReadAt.parens (h : ReadAt 0 ls e) : ReadAt 8 (Lexeme.parens ls) e := by
  intro n env s rest hs hn _
  cases n with
  | zero => exact absurd hn (Nat.not_lt_zero _)
  | succ n =>
    have hs' : s.Faces (.mark .leftParen :: (ls ++ .mark .rightParen :: rest)) := by
      simpa [Lexeme.parens] using hs
    have hlen : (ls ++ .mark .rightParen :: rest).length < n := by
      simp [Lexeme.parens] at hn ⊢
      omega
    change (primaryOf (unary n) n).Ends env s _ Never
    unfold primaryOf
    rw [ends_token_bind]
    dsimp only
    rw [show s.reader.current.kind = .mark .leftParen from hs'.kind]
    refine (advance_faces hs' (by decide)).bind fun _ t ht => ?_
    refine (h n env t _ ht hlen (.of_none rfl)).bind fun a u h => ?_
    obtain ⟨hu, ha⟩ := h
    refine (expect_faces hu).bind fun _ v hv => ?_
    rw [ends_pure]
    exact ⟨hv, ha⟩

end Expr

end CellScript
