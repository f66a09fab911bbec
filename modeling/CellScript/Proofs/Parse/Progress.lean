import CellScript.Proofs.Parse.Outcome

/-!
# Parsers of expressions make progress

Every expression takes at least one token, and everything that repeats or nests takes one before it
does so again. So a bound above the number of tokens to come is never reached.

* `Reader.left`: the tokens to come, the current one included and the end of the source not;
* `Parser.Advances n`: with fewer than `n` tokens to come, the parser does not reach its bound, and
  takes at least one token if it succeeds;
* `Parser.Stays n`: the same, but it may take none.
-/

namespace CellScript

/-- A token counts unless it is the end of the source. -/
def Token.weight (t : Token) : Nat := if t.kind = .endOfSource then 0 else 1

namespace Reader

/-- The tokens to come, the current one included. -/
def left (r : Reader) : Nat :=
  r.stream.steps.length + r.ahead.elim 0 Token.weight + r.current.weight

theorem weight_le (t : Token) : t.weight ≤ 1 := by
  unfold Token.weight
  split <;> omega

theorem weight_of_ne {t : Token} (h : t.kind ≠ .endOfSource) : t.weight = 1 := by
  unfold Token.weight
  rw [if_neg h]

/-- Moving on from a token takes it away. -/
theorem left_advance {r r' : Reader} (h : r.current.kind ≠ .endOfSource)
    (ha : advance r = .ok () r') : r'.left < r.left := by
  have hw := weight_of_ne h
  obtain ⟨cur, ahead, steps, stop⟩ := r
  unfold advance at ha
  rw [if_neg h] at ha
  cases ahead with
  | some t =>
    cases ha
    simp only [left, Option.elim] at hw ⊢
    omega
  | none =>
    cases steps with
    | nil =>
      cases ha
      have hend : (Token.endAt stop).weight = 0 := rfl
      simp only [left, Option.elim, hend] at hw ⊢
      omega
    | cons step rest =>
      cases step with
      | error e => cases ha
      | ok t =>
        cases ha
        have ht := weight_le t
        simp only [left, Option.elim, List.length_cons] at hw ⊢
        omega

/-- Looking ahead takes nothing away. -/
theorem left_isBlockStartAhead {r r' : Reader} {b : Bool}
    (h : isBlockStartAhead r = .ok b r') : r'.left ≤ r.left ∧ r'.current = r.current := by
  obtain ⟨cur, ahead, steps, stop⟩ := r
  cases ahead with
  | some t =>
    cases h
    exact ⟨Nat.le_refl _, rfl⟩
  | none =>
    cases steps with
    | nil =>
      cases h
      exact ⟨Nat.le_refl _, rfl⟩
    | cons step rest =>
      cases step with
      | error e => cases h
      | ok t =>
        cases h
        have ht := weight_le t
        refine ⟨?_, rfl⟩
        simp only [left, Option.elim, List.length_cons]
        omega

end Reader

/-- The tokens to come. -/
def ParseState.left (s : ParseState) : Nat := s.reader.left

namespace Parser

variable {α β : Type}

/-- Parsing has not stopped for want of a larger bound. -/
def Bounded (f : ParseFailure) : Prop := f ≠ .outOfFuel

theorem bounded_malformed (e : ParseError) : Bounded (.malformed e) := nofun

/-- With fewer than `n` tokens to come, the parser stays below its bound and takes a token. -/
def Advances (n : Nat) (p : Parser α) : Prop :=
  ∀ env s, s.left < n → p.Ends env s (fun _ t => t.left < s.left) Bounded

/-- With fewer than `n` tokens to come, the parser stays below its bound and gives no token back. -/
def Stays (n : Nat) (p : Parser α) : Prop :=
  ∀ env s, s.left < n → p.Ends env s (fun _ t => t.left ≤ s.left) Bounded

/-! ## Primitives -/

section

variable {env : ParseEnv} {s : ParseState} {n : Nat}

theorem ofReader_ends {step : EStateM LexError Reader α} {Q : α → ParseState → Prop}
    (h : ∀ a r, step s.reader = .ok a r → Q a { s with reader := r }) :
    (ofReader step).Ends env s Q Bounded := by
  constructor
  unfold ofReader
  cases hs : step s.reader with
  | ok a r => exact h a r hs
  | error e r => exact nofun

theorem advance_ends (h : s.reader.current.kind ≠ .endOfSource) :
    advance.Ends env s (fun _ t => t.left < s.left) Bounded :=
  ofReader_ends fun _ _ ha => Reader.left_advance h ha

/-- Moving on from a token whose kind is known. -/
theorem advance_from {kind : TokenKind} (h : s.reader.current.kind = kind)
    (hk : kind ≠ .endOfSource) : advance.Ends env s (fun _ t => t.left < s.left) Bounded :=
  advance_ends (h ▸ hk)

theorem expect_advances (m : Mark) : Advances n (expect m) := by
  intro env s _
  unfold expect
  rw [ends_atMark_bind]
  split
  · next h => exact advance_from (eq_of_beq h) nofun
  · rw [ends_fail]
    exact bounded_malformed _

theorem expectName_advances (otherwise : ParseCause) : Advances n (expectName otherwise) := by
  intro env s _
  unfold expectName
  rw [ends_token_bind]
  split
  · next h =>
    refine (advance_from (eq_of_beq h) nofun).bind fun _ t ht => ?_
    rw [ends_pure]
    exact ht
  · rw [ends_fail]
    exact bounded_malformed _

end

theorem Advances.stays {n : Nat} {p : Parser α} (h : Advances n p) : Stays n p :=
  fun env s hs => (h env s hs).imp fun _ _ ht => Nat.le_of_lt ht

theorem Advances.mono {n m : Nat} {p : Parser α} (h : Advances n p) (hm : m ≤ n) : Advances m p :=
  fun env s hs => h env s (Nat.lt_of_lt_of_le hs hm)

/-- What follows a parser that takes a token has fewer to come. -/
theorem Advances.bind {n m : Nat} {p : Parser α} {f : α → Parser β} (hp : Advances n p)
    (hm : n ≤ m + 1) (hf : ∀ a, Stays m (f a)) : Advances n (p >>= f) := by
  intro env s hs
  refine (hp env s hs).bind fun a t ht => (hf a env t (by omega)).imp fun _ u hu => ?_
  omega

theorem Stays.bind {n : Nat} {p : Parser α} {f : α → Parser β} (hp : Stays n p)
    (hf : ∀ a, Stays n (f a)) : Stays n (p >>= f) := by
  intro env s hs
  refine (hp env s hs).bind fun a t ht => (hf a env t (by omega)).imp fun _ u hu => ?_
  omega

theorem stays_pure {n : Nat} (a : α) : Stays n (pure a) := by
  intro env s _
  exact (ends_pure _ _).2 (Nat.le_refl _)

theorem stays_fail {n : Nat} (cause : ParseCause) : Stays n (fail cause : Parser α) := by
  intro env s _
  rw [ends_fail]
  exact bounded_malformed _

/-- Behind a token that is known there is one token less to come. -/
theorem advance_then {n : Nat} {env : ParseEnv} {s : ParseState} {f : Unit → Parser α}
    (hs : s.left < n + 1) (h : s.reader.current.kind ≠ .endOfSource) (hf : Stays n (f ())) :
    (advance >>= f).Ends env s (fun _ t => t.left < s.left) Bounded := by
  refine (advance_ends h).bind fun _ t ht => (hf env t (by omega)).imp fun _ u hu => ?_
  omega

/-- An optional part that begins with a mark. -/
theorem stays_ifMark {n : Nat} {m : Mark} {f : Unit → Parser α} {q : Parser α}
    (hf : Stays n (f ())) (hq : Stays n q) :
    Stays n (atMark m >>= fun b => if b = true then advance >>= f else q) := by
  intro env s hs
  rw [ends_atMark_bind]
  split
  · next h =>
    have hne : s.reader.current.kind ≠ .endOfSource := by
      rw [eq_of_beq h]
      exact nofun
    exact (advance_then (Nat.lt_succ_of_lt hs) hne hf).imp fun _ _ ht => Nat.le_of_lt ht
  · exact hq env s hs

/-! ## Repetition -/

section

variable {n : Nat}

/-- Each turn of a chain takes an operator and an operand. -/
theorem chain_stays {O : Type} {op? : TokenKind → Option O} {build : O → Expr → Expr → Nat → Expr}
    {next : Parser Expr} (hop : op? .endOfSource = none) (hnext : Advances n next) :
    ∀ m ≤ n, ∀ lhs, Stays m (chain op? build next m lhs) := by
  intro m
  induction m with
  | zero => exact fun _ _ _ s hs => absurd hs (Nat.not_lt_zero _)
  | succ m ih =>
    intro hm lhs env s hs
    unfold chain
    rw [ends_current_bind]
    split
    · exact stays_pure _ env s hs
    · next op h =>
      have hne : s.reader.current.kind ≠ .endOfSource := fun hend => by
        rw [hend, hop] at h
        cases h
      rw [ends_line_bind]
      refine (advance_ends hne).bind fun _ t ht => ?_
      refine (hnext env t (by omega)).bind fun rhs u hu => ?_
      refine (ih (by omega) _ env u (by omega)).imp fun _ v hv => ?_
      omega

theorem moreItems_stays {item : Parser Expr} (hitem : Advances n item) :
    ∀ m ≤ n, Stays m (moreItems item m) := by
  intro m
  induction m with
  | zero => exact fun _ _ s hs => absurd hs (Nat.not_lt_zero _)
  | succ m ih =>
    intro hm
    refine stays_ifMark (fun env s hs => ?_) (stays_pure _)
    refine (hitem env s (by omega)).bind fun e t ht => ?_
    refine (ih (by omega) env t (by omega)).bind fun es u hu => ?_
    rw [ends_pure]
    omega

theorem itemsUntil_advances {close : Mark} {item : Parser Expr} (hitem : Advances n item) :
    Advances n (itemsUntil close item n) := by
  intro env s hs
  unfold itemsUntil
  rw [ends_atMark_bind]
  split
  · next h =>
    refine (advance_from (eq_of_beq h) nofun).bind fun _ t ht => ?_
    rw [ends_pure]
    exact ht
  · refine (hitem env s hs).bind fun e t ht => ?_
    refine (moreItems_stays hitem n (Nat.le_refl _) env t (by omega)).bind fun es u hu => ?_
    refine (expect_advances close env u (by omega : u.left < n)).bind fun _ v hv => ?_
    rw [ends_pure]
    omega

end

/-! ## Levels of binding -/

section

variable {unary : Parser Expr} {n : Nat} (hu : Advances n unary)

include hu

theorem productOf_advances : Advances n (productOf unary n) :=
  hu.bind (Nat.le_succ n) fun lhs => chain_stays rfl hu n (Nat.le_refl n) lhs

theorem sumOf_advances : Advances n (sumOf unary n) :=
  (productOf_advances hu).bind (Nat.le_succ n) fun lhs =>
    chain_stays rfl (productOf_advances hu) n (Nat.le_refl n) lhs

theorem relationOf_advances : Advances n (relationOf unary n) := by
  refine (sumOf_advances hu).bind (Nat.le_succ n) fun lhs env s hs => ?_
  rw [ends_current_bind]
  split
  · exact stays_pure _ env s hs
  · next op h =>
    have hne : s.reader.current.kind ≠ .endOfSource := fun hend => by
      rw [hend] at h
      cases h
    rw [ends_line_bind]
    refine (advance_ends hne).bind fun _ t ht => ?_
    refine (sumOf_advances hu env t (by omega)).bind fun rhs u hu => ?_
    rw [ends_pure]
    omega

theorem disjunctionOf_advances : Advances n (disjunctionOf unary n) :=
  (relationOf_advances hu).bind (Nat.le_succ n) fun lhs =>
    chain_stays rfl (relationOf_advances hu) n (Nat.le_refl n) lhs

theorem expressionOf_advances : Advances n (expressionOf unary n) :=
  (disjunctionOf_advances hu).bind (Nat.le_succ n) fun lhs =>
    chain_stays rfl (disjunctionOf_advances hu) n (Nat.le_refl n) lhs

/-! ## Primaries and selectors -/

-- A primary begins with a token of its own, so it may begin with `n` tokens to come, one more than
-- the expressions inside it.

theorem colorOf_ends {env : ParseEnv} {s : ParseState} (hs : s.left < n + 1)
    (h : s.reader.current.kind ≠ .endOfSource) :
    (colorOf unary n).Ends env s (fun _ t => t.left < s.left) Bounded := by
  have hsum := (sumOf_advances hu).stays
  have close (first : Expr) (more : List Expr) (l : Nat) : Stays n (do
      expect .bar
      return Expr.color ((first :: more).map Expr.asOperand) l) :=
    (expect_advances .bar).stays.bind fun _ => stays_pure _
  unfold colorOf
  rw [ends_line_bind]
  refine advance_then hs h (hsum.bind fun first => ?_)
  refine stays_ifMark (hsum.bind fun second => (expect_advances .comma).stays.bind fun _ =>
    hsum.bind fun third => ?_) ((stays_pure _).bind fun more => close first more _)
  exact stays_ifMark (hsum.bind fun fourth => (stays_pure _).bind fun more => close first more _)
    ((stays_pure _).bind fun more => close first more _)

theorem vectorOf_ends {env : ParseEnv} {s : ParseState} (hs : s.left < n + 1)
    (h : s.reader.current.kind ≠ .endOfSource) :
    (vectorOf unary n).Ends env s (fun _ t => t.left < s.left) Bounded := by
  have hsum := (sumOf_advances hu).stays
  unfold vectorOf
  rw [ends_line_bind]
  exact advance_then hs h (hsum.bind fun x => (expect_advances .comma).stays.bind fun _ =>
    hsum.bind fun y => (expect_advances .greater).stays.bind fun _ => stays_pure _)

theorem primaryOf_advances : Advances (n + 1) (primaryOf unary n) := by
  have hexpr := expressionOf_advances hu
  intro env s hs
  unfold primaryOf
  rw [ends_token_bind]
  have here {kind : TokenKind} (h : s.reader.current.kind = kind) (hk : kind ≠ .endOfSource) :
      s.reader.current.kind ≠ .endOfSource := h ▸ hk
  dsimp only
  split
  · next h =>
    split
    · rw [ends_throw]
      exact nofun
    · exact advance_then hs (here h nofun) (stays_pure _)
  · next h =>
    split
    · rw [ends_throw]
      exact nofun
    · exact advance_then hs (here h nofun) (stays_pure _)
  · next h => exact advance_then hs (here h nofun) (stays_pure _)
  · next h => exact advance_then hs (here h nofun) (stays_pure _)
  · next h => exact advance_then hs (here h nofun) (stays_pure _)
  · next h => exact advance_then hs (here h nofun) (stays_pure _)
  · next h => exact advance_then hs (here h nofun) (stays_pure _)
  · next h =>
    refine advance_then hs (here h nofun) ((expectName_advances _).stays.bind fun typeName => ?_)
    exact stays_ifMark ((itemsUntil_advances hexpr).stays.bind fun _ => stays_pure _)
      (stays_pure _)
  · next h => exact colorOf_ends hu hs (here h nofun)
  · next h => exact vectorOf_ends hu hs (here h nofun)
  · next h =>
    exact advance_then hs (here h nofun)
      ((itemsUntil_advances hexpr).stays.bind fun _ => stays_pure _)
  · next h =>
    exact advance_then hs (here h nofun)
      (hexpr.stays.bind fun _ => (expect_advances _).stays.bind fun _ => stays_pure _)
  · rw [ends_fail]
    exact bounded_malformed _

omit hu in
/-- Each selector begins with a mark. -/
theorem selectors_stays {expression : Parser Expr} (he : Advances n expression) :
    ∀ m ≤ n, ∀ e, Stays m (selectors expression n m e) := by
  intro m
  induction m with
  | zero => exact fun _ _ _ s hs => absurd hs (Nat.not_lt_zero _)
  | succ m ih =>
    intro hm e env s hs
    have here {kind : TokenKind} (h : s.reader.current.kind = kind) (hk : kind ≠ .endOfSource) :
        s.reader.current.kind ≠ .endOfSource := h ▸ hk
    have next (e : Expr) : Stays m (selectors expression n m e) := ih (by omega) e
    have small {α : Type} {p : Parser α} (hp : Advances n p) : Stays m p :=
      (hp.mono (by omega)).stays
    have after {f : Unit → Parser Expr} (hne : s.reader.current.kind ≠ .endOfSource)
        (hf : Stays m (f ())) : (advance >>= f).Ends env s (fun _ t => t.left ≤ s.left) Bounded :=
      (advance_then hs hne hf).imp fun _ _ ht => Nat.le_of_lt ht
    unfold selectors
    rw [ends_line_bind, ends_current_bind]
    split
    · next h =>
      exact after (here h nofun) ((expectName_advances _).stays.bind fun _ => next _)
    · next h =>
      exact after (here h nofun) ((small he).bind fun _ =>
        (expect_advances _).stays.bind fun _ => next _)
    · next h =>
      exact after (here h nofun) ((small (itemsUntil_advances he)).bind fun _ => next _)
    · exact stays_pure _ env s hs

theorem suffixedOf_advances : Advances (n + 1) (suffixedOf unary n) := by
  refine (primaryOf_advances hu).bind (Nat.le_refl _) fun first => ?_
  refine (selectors_stays (expressionOf_advances hu) n (Nat.le_refl _) first).bind fun e => ?_
  intro env s hs
  rw [ends_current_bind]
  split
  · next d h =>
    have hne : s.reader.current.kind ≠ .endOfSource := fun hend => by
      rw [hend] at h
      cases h
    split
    · rw [ends_line_bind]
      refine (advance_ends hne).bind fun _ t ht => ?_
      rw [ends_pure]
      exact Nat.le_of_lt ht
    · exact stays_pure _ env s hs
  · exact stays_pure _ env s hs

end

/-- Every prefix is a token, so nesting stays below the number of tokens. -/
theorem unary_advances (n : Nat) : Advances n (unary n) := by
  induction n with
  | zero => exact fun _ s hs => absurd hs (Nat.not_lt_zero _)
  | succ n ih =>
    intro env s hs
    have here {kind : TokenKind} (h : s.reader.current.kind = kind) (hk : kind ≠ .endOfSource) :
        s.reader.current.kind ≠ .endOfSource := h ▸ hk
    unfold unary
    rw [ends_line_bind, ends_current_bind]
    split
    · next h => exact advance_then hs (here h nofun) ih.stays
    · next h => exact advance_then hs (here h nofun) (ih.stays.bind fun _ => stays_pure _)
    · next h => exact advance_then hs (here h nofun) (ih.stays.bind fun _ => stays_pure _)
    · split
      · next d h =>
        have hne : s.reader.current.kind ≠ .endOfSource := fun hend => by
          rw [hend] at h
          cases h
        refine advance_then hs hne (((suffixedOf_advances ih).mono (Nat.le_succ n)).stays.bind
          fun e => ?_)
        split
        · exact stays_pure _
        · exact stays_fail _
      · exact suffixedOf_advances ih env s hs

theorem expression_advances (n : Nat) : Advances n (expression n) :=
  expressionOf_advances (unary_advances n)

end Parser

end CellScript
