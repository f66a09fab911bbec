import CellScript.Parse.Statement
import CellScript.Proofs.Parse.Outcome
import CellScript.Proofs.Token.Closing

/-!
# Expressions stop at a semicolon

No expression takes a semicolon, and what ends at one also ends where the source ends: if the parser
reads an expression from some tokens, then it reads the same one if the source has an end in place
of the first semicolon, or of the end that it has.

* `Reader.Clipped`: the second reader comes to the same tokens, up to a stop of the first one;
* `Parser.Clips`: a parser that gives the same on both;
* `Parser.expression_clips`: so do expressions, with one lemma for each production.
-/

namespace CellScript

/-- Steps that begin with a semicolon, or no steps. -/
def IsStop (stop : List (Except LexError Token)) : Prop :=
  ∀ step ∈ stop.head?, ∃ t : Token, step = .ok t ∧ t.kind = .mark .semicolon

theorem IsClosing.isStop {stop : List (Except LexError Token)} (h : IsClosing stop) :
    IsStop stop := by
  intro step hstep
  rcases h with rfl | ⟨t, ht, rfl⟩
  · cases hstep
  · cases hstep
    exact ⟨t, rfl, ht⟩

/-- The second reader comes to the same tokens as the first one, up to a stop, and there to its
end. -/
inductive Reader.Clipped (stop : List (Except LexError Token)) : Reader → Reader → Prop
  | stop {s rest s' : TokenStream} {t u : Token} (steps : s.steps = stop)
    (next : s.next = (.ok t, rest)) (end_ : u.kind = .endOfSource) :
    Clipped stop ⟨t, none, rest⟩ ⟨u, none, s'⟩
  | token {s s' : TokenStream} {t u : Token} (alike : t.Alike u)
    (open_ : t.kind ≠ .mark .semicolon) (inside : t.kind ≠ .endOfSource)
    (rest : SameUntil stop s.steps s'.steps) : Clipped stop ⟨t, none, s⟩ ⟨u, none, s'⟩

/-- Whether a token is a semicolon or the end. -/
def TokenKind.isStop (kind : TokenKind) : Bool := kind == .mark .semicolon || kind == .endOfSource

section

variable {stop : List (Except LexError Token)}

theorem TokenKind.eq_of_isStop {k : TokenKind} (h : k.isStop = true) :
    k = .mark .semicolon ∨ k = .endOfSource := by
  simpa [TokenKind.isStop] using h

/-- Both readers are at the same token, or the one is at the stop and the other at its end. -/
theorem Reader.Clipped.current (hstop : IsStop stop) {r r' : Reader} (h : r.Clipped stop r') :
    (r.current.kind.isStop = true ∧ r'.current.kind = .endOfSource) ∨
      (r.current.kind.isStop = false ∧ r.current.Alike r'.current) := by
  cases h with
  | @stop s _ _ t _ steps next end_ =>
    refine .inl ⟨?_, end_⟩
    obtain ⟨steps', _⟩ := s
    subst steps
    cases steps' with
    | nil =>
      cases next
      rfl
    | cons step more =>
      obtain ⟨u, hu, hkind⟩ := hstop step rfl
      subst hu
      cases next
      simp [TokenKind.isStop, hkind]
  | token alike open_ inside rest => exact .inr ⟨by simp [TokenKind.isStop, open_, inside], alike⟩

/-- At a semicolon the first reader is at the stop. -/
theorem Reader.Clipped.at_semicolon {r r' : Reader} (h : r.Clipped stop r')
    (hkind : r.current.kind = .mark .semicolon) :
    stop = .ok r.current :: r.stream.steps ∧ r.ahead = none ∧ r'.current.kind = .endOfSource := by
  cases h with
  | @stop s _ _ t _ steps next end_ =>
    obtain ⟨steps', _⟩ := s
    subst steps
    cases steps' with
    | nil =>
      cases next
      cases hkind
    | cons step more =>
      cases next
      exact ⟨rfl, rfl, end_⟩
  | token alike open_ => exact absurd hkind open_

/-- If the stop is a semicolon, the first reader does not come to the end. -/
theorem Reader.Clipped.ne_endOfSource {t : Token} {steps : List (Except LexError Token)}
    (ht : t.kind = .mark .semicolon) {r r' : Reader} (h : r.Clipped (.ok t :: steps) r') :
    r.current.kind ≠ .endOfSource := by
  cases h with
  | @stop s _ _ u _ hsteps next end_ =>
    obtain ⟨steps', _⟩ := s
    subst hsteps
    cases next
    simp [ht]
  | token alike open_ inside => exact inside

/-- Taking the next token of two streams. -/
theorem Reader.Clipped.of_next {s s' rest : TokenStream} {t : Token}
    (h : SameUntil stop s.steps s'.steps) (ht : s.next = (.ok t, rest)) :
    ∃ u rest', s'.next = (.ok u, rest') ∧ Reader.Clipped stop ⟨t, none, rest⟩ ⟨u, none, rest'⟩ := by
  obtain ⟨steps, place⟩ := s
  obtain ⟨steps', place'⟩ := s'
  dsimp only at h
  cases h with
  | stop => exact ⟨_, _, rfl, .stop rfl ht rfl⟩
  | fault => cases ht
  | token alike open_ inside rest =>
    cases ht
    exact ⟨_, _, rfl, .token alike open_ inside rest⟩

/-- From a token that is no stop, both readers move on. -/
theorem Reader.Clipped.advance (hstop : IsStop stop) {r r' : Reader} (h : r.Clipped stop r')
    (hkind : r.current.kind.isStop = false) (a : Unit) (u : Reader)
    (ha : Reader.advance r = .ok a u) :
    ∃ u', Reader.advance r' = .ok a u' ∧ u.Clipped stop u' := by
  have hcurrent := h.current hstop
  rw [hkind] at hcurrent
  cases h with
  | stop steps next end_ =>
    rcases hcurrent with ⟨h, -⟩ | ⟨-, alike⟩
    · cases h
    · rw [alike.kind, end_] at hkind
      cases hkind
  | @token s s' t t' alike open_ inside rest =>
    have hend' : t'.kind ≠ .endOfSource := alike.kind ▸ inside
    unfold Reader.advance Reader.pull at ha ⊢
    rw [if_neg inside] at ha
    rw [if_neg hend']
    dsimp only at ha ⊢
    cases hnext : s.next with
    | mk step more =>
      rw [hnext] at ha
      cases step with
      | error e => cases ha
      | ok v =>
        cases ha
        obtain ⟨v', more', hnext', hclipped⟩ := Reader.Clipped.of_next rest hnext
        rw [hnext']
        exact ⟨_, rfl, hclipped⟩

end

namespace Parser

section

variable {α β : Type} {stop : List (Except LexError Token)}

/-- If the first parser succeeds, the second one does with the same result, wherever it stands, and
the tokens to come are still the same up to the stop. -/
def Matches (stop : List (Except LexError Token)) (p p' : Parser α) (env : ParseEnv)
    (s s' : ParseState) : Prop :=
  p.Ends env s (fun a t => ∃ t', (∀ env', p' env' s' = .ok a t') ∧ t.reader.Clipped stop t'.reader)
    fun _ => True

/-- The parser gives the same up to the stop. -/
def Clips (stop : List (Except LexError Token)) (p : Parser α) : Prop :=
  ∀ env s s', s.reader.Clipped stop s'.reader → Matches stop p p env s s'

/-- The parser gives the same up to the stop if it begins at a token of the kind. -/
def ClipsAt (stop : List (Except LexError Token)) (kind : TokenKind) (p : Parser α) : Prop :=
  ∀ env s s', s.reader.Clipped stop s'.reader → s.reader.current.kind = kind →
    Matches stop p p env s s'

variable {p : Parser α} {f : α → Parser β} {kind : TokenKind}

theorem Matches.bind {p' : Parser α} {f' : α → Parser β} {env : ParseEnv} {s s' : ParseState}
    (h : Matches stop p p' env s s')
    (hf : ∀ a t t', t.reader.Clipped stop t'.reader → Matches stop (f a) (f' a) env t t') :
    Matches stop (p >>= f) (p' >>= f') env s s' := by
  refine Ends.bind h fun a t ⟨t', hp', ht⟩ => ?_
  have hrun (env' : ParseEnv) : (p' >>= f') env' s' = f' a env' t' := by
    change EStateM.bind (p' env') (fun a => f' a env') s' = _
    rw [EStateM.bind, hp']
  exact Ends.imp (hf a t t' ht) fun b u ⟨u', hf', hu⟩ =>
    ⟨u', fun env' => (hrun env').trans (hf' env'), hu⟩

namespace Clips

theorem pure (a : α) : Clips stop (pure a) := fun _ _ s' hs =>
  (ends_pure _ _).2 ⟨s', fun _ => rfl, hs⟩

theorem throw (f : ParseFailure) : Clips (α := α) stop (throw f) := fun _ _ _ _ =>
  (ends_throw _ _).2 trivial

theorem fail (cause : ParseCause) : Clips (α := α) stop (Parser.fail cause) := fun _ _ _ _ =>
  (ends_fail _ _).2 trivial

theorem bind (h : Clips stop p) (hf : ∀ a, Clips stop (f a)) : Clips stop (p >>= f) :=
  fun env s s' hs => (h env s s' hs).bind fun a t t' ht => hf a env t t' ht

end Clips

/-! ### At and in front of the stop -/

section

variable {env : ParseEnv} {s s' : ParseState}

theorem Matches.current {f f' : TokenKind → Parser β}
    (h : Matches stop (f s.reader.current.kind) (f' s'.reader.current.kind) env s s') :
    Matches stop (current >>= f) (current >>= f') env s s' :=
  (ends_current_bind _ _).2 h

theorem Matches.line {f f' : Nat → Parser β}
    (h : Matches stop (f s.reader.current.line) (f' s'.reader.current.line) env s s') :
    Matches stop (line >>= f) (line >>= f') env s s' :=
  (ends_line_bind _ _).2 h

theorem Matches.token {f f' : Token → Parser β}
    (h : Matches stop (f s.reader.current) (f' s'.reader.current) env s s') :
    Matches stop (token >>= f) (token >>= f') env s s' :=
  (ends_token_bind _ _).2 h

end

section

variable (hstop : IsStop stop)

include hstop

/-- The kind of the current token, where the same is done at a semicolon and at the end. -/
theorem Clips.current {f : TokenKind → Parser β} (hend : f (.mark .semicolon) = f .endOfSource)
    (hf : ∀ kind, ClipsAt stop kind (f kind)) : Clips stop (Parser.current >>= f) := by
  intro env s s' hs
  refine .current ?_
  have same := hf _ env s s' hs rfl
  rcases hs.current hstop with ⟨hk, hk'⟩ | ⟨-, alike⟩
  · rw [hk']
    rcases TokenKind.eq_of_isStop hk with hk | hk <;> rw [hk] at same ⊢
    · rwa [hend] at same ⊢
    · exact same
  · rwa [← alike.kind]

/-- The line and the kind of the current token, where the same is done at a semicolon and at the
end, whatever the line. -/
theorem Clips.line_current {f : Nat → TokenKind → Parser β}
    (hend : ∀ l m, f l (.mark .semicolon) = f m .endOfSource)
    (hf : ∀ l kind, ClipsAt stop kind (f l kind)) :
    Clips stop (do let l ← Parser.line; let kind ← Parser.current; f l kind) := by
  intro env s s' hs
  refine .line (.current ?_)
  have same := hf s.reader.current.line _ env s s' hs rfl
  rcases hs.current hstop with ⟨hk, hk'⟩ | ⟨-, alike⟩
  · rw [hk']
    rcases TokenKind.eq_of_isStop hk with hk | hk <;> rw [hk] at same ⊢
    · rwa [hend _ s'.reader.current.line] at same ⊢
    · rwa [← hend s.reader.current.line, hend _ s'.reader.current.line] at same ⊢
  · rwa [← alike.kind, ← alike.line]

theorem ClipsAt.line (hkind : kind.isStop = false) {f : Nat → Parser β}
    (hf : ∀ l, ClipsAt stop kind (f l)) : ClipsAt stop kind (Parser.line >>= f) := by
  intro env s s' hs hk
  refine .line ?_
  rcases hs.current hstop with ⟨hk', -⟩ | ⟨-, alike⟩
  · rw [hk, hkind] at hk'
    cases hk'
  · rw [← alike.line]
    exact hf _ env s s' hs hk

/-- The current token, where nothing can be made of a semicolon or the end. -/
theorem Clips.token {f : Token → Parser β} (hsame : ∀ t u : Token, t.Alike u → f t = f u)
    (cause : ParseCause) (hend : ∀ t, t.kind.isStop = true → f t = Parser.fail cause)
    (hf : ∀ t, t.kind.isStop = false → ClipsAt stop t.kind (f t)) :
    Clips stop (Parser.token >>= f) := by
  intro env s s' hs
  refine .token ?_
  rcases hs.current hstop with ⟨hk, -⟩ | ⟨hk, alike⟩
  · rw [hend _ hk]
    exact (ends_fail _ _).2 trivial
  · rw [← hsame _ _ alike]
    exact hf _ hk env s s' hs rfl

omit hstop in
theorem ClipsAt.of (h : Clips stop p) : ClipsAt stop kind p := fun env s s' hs _ => h env s s' hs

omit hstop in
theorem ClipsAt.bind (h : ClipsAt stop kind p) (hf : ∀ a, Clips stop (f a)) :
    ClipsAt stop kind (p >>= f) :=
  fun env s s' hs hk => (h env s s' hs hk).bind fun a t t' ht => hf a env t t' ht

/-- The parser moves on from a token that is no stop. -/
theorem ClipsAt.advance (hkind : kind.isStop = false) : ClipsAt stop kind advance := by
  intro env s s' hs hk
  obtain ⟨r, ordinal, included⟩ := s
  obtain ⟨r', ordinal', included'⟩ := s'
  have hadvance := hs.advance hstop (by rw [hk]; exact hkind)
  constructor
  unfold Parser.advance ofReader
  cases ha : Reader.advance r with
  | ok a u =>
    obtain ⟨u', ha', hu⟩ := hadvance a u ha
    exact ⟨⟨u', ordinal', included'⟩, fun _ => by simp only [ha'], hu⟩
  | error e u => trivial

/-- At a mark the one way is taken, and the other one wherever else. -/
theorem Clips.atMark {m : Mark} (hm : m ≠ .semicolon) {f : Bool → Parser β}
    (hyes : ClipsAt stop (.mark m) (f true)) (hno : Clips stop (f false)) :
    Clips stop (Parser.atMark m >>= f) := by
  have run : (Parser.atMark m >>= f) =
      (Parser.current >>= fun kind => f (kind == .mark m)) := rfl
  rw [run]
  refine .current hstop ?_ fun kind => ?_
  · have h : (TokenKind.mark .semicolon == .mark m) = false := by simpa using hm.symm
    rw [h]
    rfl
  · cases h : kind == .mark m with
    | true =>
      rw [eq_of_beq h]
      exact hyes
    | false => exact .of hno

theorem Clips.expect {m : Mark} (hm : m ≠ .semicolon) : Clips stop (Parser.expect m) :=
  .atMark hstop hm (.advance hstop (by simpa [TokenKind.isStop] using hm)) (.fail _)

theorem Clips.expectName (otherwise : ParseCause) : Clips stop (Parser.expectName otherwise) := by
  refine .token hstop (fun t u alike => ?_) otherwise (fun t ht => ?_) fun t ht => ?_
  · rw [alike.kind, alike.value]
  · rcases TokenKind.eq_of_isStop ht with ht | ht <;> rw [ht] <;> rfl
  · split
    · exact .bind (.advance hstop ht) fun _ => .pure _
    · exact .of (.fail _)

end

end

/-! ## Productions -/

/-- Operators are no stops. -/
theorem isStop_of_op? {O : Type} (op? : TokenKind → Option O)
    (h : op? (.mark .semicolon) = none) (h' : op? .endOfSource = none) {kind : TokenKind} {op : O}
    (hop : op? kind = some op) :
    kind.isStop = false := by
  rw [Bool.eq_false_iff]
  intro hisStop
  rcases TokenKind.eq_of_isStop hisStop with rfl | rfl
  · rw [h] at hop
    cases hop
  · rw [h'] at hop
    cases hop

section

variable {stop : List (Except LexError Token)} (hstop : IsStop stop)

include hstop

variable {item next unary : Parser Expr} {n : Nat}

theorem chain_clips {O : Type} {op? : TokenKind → Option O} {build : O → Expr → Expr → Nat → Expr}
    (h : op? (.mark .semicolon) = none) (h' : op? .endOfSource = none) (hnext : Clips stop next)
    (turns : Nat) (lhs : Expr) : Clips stop (chain op? build next turns lhs) := by
  induction turns generalizing lhs with
  | zero => exact .throw _
  | succ turns ih =>
    refine .current hstop (by simp [h, h']) fun kind => ?_
    split
    · exact .of (.pure _)
    · next op hop =>
      have hkind := isStop_of_op? op? h h' hop
      exact .line hstop hkind fun l => .bind (.advance hstop hkind) fun _ =>
        .bind hnext fun rhs => ih _

theorem moreItems_clips (hitem : Clips stop item) (turns : Nat) :
    Clips stop (moreItems item turns) := by
  induction turns with
  | zero => exact .throw _
  | succ turns ih =>
    refine .atMark hstop (m := .comma) nofun ?_ (.pure _)
    exact .bind (.advance hstop rfl) fun _ => .bind hitem fun e => .bind ih fun es => .pure _

theorem itemsUntil_clips {close : Mark} (hclose : close ≠ .semicolon) (hitem : Clips stop item) :
    Clips stop (itemsUntil close item n) := by
  refine .atMark hstop hclose
    (.bind (.advance hstop (by simpa [TokenKind.isStop] using hclose)) fun _ => .pure _) ?_
  exact .bind hitem fun e => .bind (moreItems_clips hstop hitem n) fun es =>
    .bind (.expect hstop hclose) fun _ => .pure _

variable (hu : Clips stop unary)

include hu

theorem productOf_clips : Clips stop (productOf unary n) :=
  .bind hu fun _ => chain_clips hstop rfl rfl hu n _

theorem sumOf_clips : Clips stop (sumOf unary n) :=
  .bind (productOf_clips hstop hu) fun _ =>
    chain_clips hstop rfl rfl (productOf_clips hstop hu) n _

theorem relationOf_clips : Clips stop (relationOf unary n) := by
  refine .bind (sumOf_clips hstop hu) fun lhs => .current hstop rfl fun kind => ?_
  split
  · exact .of (.pure _)
  · next op hop =>
    have hkind := isStop_of_op? relationalOp? rfl rfl hop
    exact .line hstop hkind fun l => .bind (.advance hstop hkind) fun _ =>
      .bind (sumOf_clips hstop hu) fun _ => .pure _

theorem disjunctionOf_clips : Clips stop (disjunctionOf unary n) :=
  .bind (relationOf_clips hstop hu) fun _ =>
    chain_clips hstop rfl rfl (relationOf_clips hstop hu) n _

theorem expressionOf_clips : Clips stop (expressionOf unary n) :=
  .bind (disjunctionOf_clips hstop hu) fun _ =>
    chain_clips hstop rfl rfl (disjunctionOf_clips hstop hu) n _

theorem colorOf_clips : ClipsAt stop (.mark .bar) (colorOf unary n) := by
  have sum := sumOf_clips (n := n) hstop hu
  have close (cs : List Expr) (l : Nat) :
      Clips stop (do expect .bar; return Expr.color cs l) :=
    .bind (.expect hstop nofun) fun _ => .pure _
  refine .line hstop rfl fun l => .bind (.advance hstop rfl) fun _ => .bind sum fun first => ?_
  refine .atMark hstop (m := .comma) nofun ?_ (close _ l)
  refine .bind (.advance hstop rfl) fun _ => .bind sum fun second =>
    .bind (.expect hstop nofun) fun _ => .bind sum fun third =>
    .atMark hstop (m := .comma) nofun ?_ (close _ l)
  exact .bind (.advance hstop rfl) fun _ => .bind sum fun fourth => close _ l

theorem vectorOf_clips : ClipsAt stop (.mark .less) (vectorOf unary n) :=
  .line hstop rfl fun _ => .bind (.advance hstop rfl) fun _ => .bind (sumOf_clips hstop hu) fun _ =>
    .bind (.expect hstop nofun) fun _ => .bind (sumOf_clips hstop hu) fun _ =>
    .bind (.expect hstop nofun) fun _ => .pure _

theorem primaryOf_clips : Clips stop (primaryOf unary n) := by
  have items {close : Mark} (hclose : close ≠ .semicolon) :=
    itemsUntil_clips (n := n) hstop hclose (expressionOf_clips (n := n) hstop hu)
  refine .token hstop (fun t u alike => ?_) .syntaxError (fun t ht => ?_) fun t ht => ?_
  · obtain ⟨k, v, p⟩ := t
    obtain ⟨k', v', p'⟩ := u
    obtain ⟨rfl, rfl, hline⟩ := alike
    dsimp only
    rw [hline]
    rfl
  · rcases TokenKind.eq_of_isStop ht with ht | ht <;> simp only [ht]
  · obtain ⟨kind, value, place⟩ := t
    dsimp only at ht ⊢
    cases kind with
    | integer =>
      dsimp only
      split
      · exact .of (.throw _)
      · exact .bind (.advance hstop rfl) fun _ => .pure _
    | real =>
      dsimp only
      split
      · exact .of (.throw _)
      · exact .bind (.advance hstop rfl) fun _ => .pure _
    | string | ident => exact .bind (.advance hstop rfl) fun _ => .pure _
    | keyword k =>
      cases k with
      | «true» | «false» | undefined => exact .bind (.advance hstop rfl) fun _ => .pure _
      | new =>
        refine .bind (.advance hstop rfl) fun _ => .bind (.expectName hstop _) fun name =>
          .atMark hstop (m := .leftParen) nofun ?_ (.pure _)
        exact .bind (.advance hstop rfl) fun _ => .bind (items nofun) fun es => .pure _
      | _ => exact .of (.fail _)
    | mark m =>
      cases m with
      | bar => exact colorOf_clips hstop hu
      | less => exact vectorOf_clips hstop hu
      | leftBracket =>
        exact .bind (.advance hstop rfl) fun _ => .bind (items nofun) fun es => .pure _
      | leftParen =>
        exact .bind (.advance hstop rfl) fun _ => .bind (expressionOf_clips hstop hu) fun e =>
          .bind (.expect hstop nofun) fun _ => .pure _
      | _ => exact .of (.fail _)
    | _ => exact .of (.fail _)

omit hu in
theorem selectors_clips {expression : Parser Expr} (hexpr : Clips stop expression) (turns : Nat)
    (e : Expr) : Clips stop (selectors expression n turns e) := by
  induction turns generalizing e with
  | zero => exact .throw _
  | succ turns ih =>
    refine .line_current hstop (fun _ _ => rfl) fun l kind => ?_
    split
    · exact .bind (.advance hstop rfl) fun _ => .bind (.expectName hstop _) fun name => ih _
    · exact .bind (.advance hstop rfl) fun _ => .bind hexpr fun i =>
        .bind (.expect hstop nofun) fun _ => ih _
    · exact .bind (.advance hstop rfl) fun _ =>
        .bind (itemsUntil_clips hstop nofun hexpr) fun es => ih _
    · exact .of (.pure _)

theorem suffixedOf_clips : Clips stop (suffixedOf unary n) := by
  refine .bind (primaryOf_clips hstop hu) fun first =>
    .bind (selectors_clips hstop (expressionOf_clips hstop hu) n first) fun e =>
    .current hstop rfl fun kind => ?_
  split
  · next d hd =>
    have hkind := isStop_of_op? direction? rfl rfl hd
    split
    · exact .line hstop hkind fun l => .bind (.advance hstop hkind) fun _ => .pure _
    · exact .of (.pure _)
  · exact .of (.pure _)

end

theorem unary_clips {stop : List (Except LexError Token)} (hstop : IsStop stop) (n : Nat) :
    Clips stop (unary n) := by
  induction n with
  | zero => exact .throw _
  | succ n ih =>
    refine .line_current hstop (fun _ _ => rfl) fun l kind => ?_
    split
    · exact .bind (.advance hstop rfl) fun _ => ih
    · exact .bind (.advance hstop rfl) fun _ => .bind ih fun e => .pure _
    · exact .bind (.advance hstop rfl) fun _ => .bind ih fun e => .pure _
    · split
      · next d hd =>
        have hkind := isStop_of_op? direction? rfl rfl hd
        refine .bind (.advance hstop hkind) fun _ => .bind (suffixedOf_clips hstop ih) fun e => ?_
        split
        · exact .pure _
        · exact .fail _
      · exact .of (suffixedOf_clips hstop ih)

theorem expression_clips {stop : List (Except LexError Token)} (hstop : IsStop stop) (n : Nat) :
    Clips stop (expression n) :=
  expressionOf_clips hstop (unary_clips hstop n)

end Parser

end CellScript
