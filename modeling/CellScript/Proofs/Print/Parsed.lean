import CellScript.Parse.Script
import CellScript.Proofs.Parse.Outcome
import CellScript.Proofs.Print.Canonical

/-!
# Parsed expressions can be printed

In a text without reals every expression that the parser gives is canonical: its names come from
tokens that are names, its numbers are not negative, and its operands are marked as read.

* `Token.Printable`: a token of a text without reals and includes;
* `Parser.Yields`: from such tokens on, the parser gives only what `Q` says of its result and of the
  state that it ends in;
* `Parser.expression_yields`: an expression can be printed.
-/

namespace CellScript

/-! ## Tokens -/

/-- A token whose text is what its kind says, neither a real nor the word of an include. -/
structure Token.Printable (t : Token) : Prop where
  name : t.kind = .ident → IsName t.value
  integer : t.kind = .integer → '-' ∉ t.value.toList
  real : t.kind ≠ .real
  notInclude : t.kind ≠ .keyword .include

/-- All tokens to come are printable. -/
structure Reader.Printable (r : Reader) : Prop where
  current : r.current.Printable
  ahead : ∀ t ∈ r.ahead, t.Printable
  steps : ∀ t, .ok t ∈ r.stream.steps → t.Printable

/-- The kinds of the tokens in a stream. -/
def TokenStream.kinds (s : TokenStream) : List TokenKind :=
  s.steps.filterMap fun
    | .ok t => some t.kind
    | .error _ => none

theorem TokenStream.kind_mem_kinds {s : TokenStream} {t : Token} (h : .ok t ∈ s.steps) :
    t.kind ∈ s.kinds :=
  List.mem_filterMap.2 ⟨.ok t, h, rfl⟩

/-- A token was scanned from some place of the text. -/
theorem TokenStream.exists_scan {n : Nat} {p : Position} {cs : List Char} {t : Token}
    (h : .ok t ∈ (scanFrom n p cs).steps) :
    ∃ c rest, (Lexer.scan c rest).piece = .token t.kind t.value := by
  fun_induction scanFrom n p cs with
  | case1 => cases h
  | case2 => cases h
  | case3 _ _ _ _ _ _ _ ih => exact ih h
  | case4 n p c cs s more kind value hpiece ih =>
    rcases List.mem_cons.1 h with h | h
    · cases h
      exact ⟨c, cs, hpiece⟩
    · exact ih h
  | case5 n p c cs s more f hpiece ih =>
    rcases List.mem_cons.1 h with h | h
    · cases h
    · exact ih h

namespace Lexer

/-- The text of a piece is what its kind says. -/
def Piece.Sound : Piece → Prop
  | .token .ident v => IsName v
  | .token .integer v => '-' ∉ v.toList
  | _ => True

theorem scanName_sound {c : Char} (hc : isNameStart c = true) (cs : List Char) :
    (scanName c cs).piece.Sound := by
  unfold scanName
  dsimp only
  split
  · trivial
  · next hident =>
    exact ⟨⟨c, _, String.toList_ofList, hc, List.all_eq_true.1 List.all_takeWhile⟩, hident⟩

theorem scanFraction_sound (whole cs : List Char) : (scanFraction whole cs).piece.Sound := by
  unfold scanFraction
  dsimp only
  split <;> trivial

/-- A run of characters that are no sign. -/
theorem no_sign_takeWhile {p : Char → Bool} (hp : p '-' = false) (cs : List Char) :
    '-' ∉ cs.takeWhile p := by
  intro h
  have hsign := List.all_eq_true.1 List.all_takeWhile _ h
  rw [hp] at hsign
  cases hsign

theorem scanNumber_sound {c : Char} (hc : isDigit c = true) (cs : List Char) :
    (scanNumber c cs).piece.Sound := by
  have hex {x : Char} (hx : '-' ≠ x) (cs : List Char) : (scanHex x cs).piece.Sound := by
    unfold scanHex
    dsimp only
    split
    · trivial
    · have hdigits := no_sign_takeWhile (p := isHexDigit) (by decide) cs
      simpa [Piece.Sound, hx] using hdigits
  unfold scanNumber
  split
  · exact hex (by decide) _
  · exact hex (by decide) _
  · unfold scanDecimal
    dsimp only
    split
    · exact scanFraction_sound _ _
    · have hdigits := no_sign_takeWhile (p := isDigit) (by decide) cs
      have hfirst : '-' ≠ c := by
        rintro rfl
        exact absurd hc (by decide)
      simpa [Piece.Sound, hfirst] using hdigits

theorem scan_sound (c : Char) (cs : List Char) : (scan c cs).piece.Sound := by
  unfold scan
  split
  · trivial
  split
  · trivial
  split
  · unfold scanBlockComment
    split <;> trivial
  split
  · next hc => exact scanName_sound hc cs
  split
  · next hc => exact scanNumber_sound hc cs
  split
  · exact scanFraction_sound _ _
  split
  · unfold scanString
    dsimp only
    split <;> trivial
  · unfold scanMark
    split <;> trivial

end Lexer

/-- The tokens of a text without reals and includes are printable. -/
theorem TokenStream.printable_of_mem {cs : List Char} (hreal : .real ∉ (ofChars cs).kinds)
    (hinclude : .keyword .include ∉ (ofChars cs).kinds) {t : Token}
    (h : .ok t ∈ (ofChars cs).steps) : t.Printable := by
  obtain ⟨c, rest, hpiece⟩ := exists_scan h
  have hsound := Lexer.scan_sound c rest
  rw [hpiece] at hsound
  exact ⟨fun hk => by rw [hk] at hsound; exact hsound, fun hk => by rw [hk] at hsound; exact hsound,
    fun hk => hreal (hk ▸ kind_mem_kinds h), fun hk => hinclude (hk ▸ kind_mem_kinds h)⟩

theorem Token.printable_endAt (p : Position) : (Token.endAt p).Printable :=
  ⟨nofun, nofun, nofun, nofun⟩

namespace Reader.Printable

variable {r r' : Reader}

theorem ofStream {s : TokenStream} (h : ∀ t, .ok t ∈ s.steps → t.Printable)
    (hr : Reader.ofStream s = .ok r) : r.Printable := by
  obtain ⟨steps, stop⟩ := s
  unfold Reader.ofStream TokenStream.next at hr
  cases steps with
  | nil =>
    cases hr
    exact ⟨Token.printable_endAt stop, nofun, h⟩
  | cons step rest =>
    cases step with
    | error e => cases hr
    | ok t =>
      cases hr
      exact ⟨h t List.mem_cons_self, nofun, fun u hu => h u (List.mem_cons_of_mem _ hu)⟩

theorem pull {t : Token} (h : r.Printable) (hp : Reader.pull r = .ok t r') :
    t.Printable ∧ r'.current = r.current ∧ r'.ahead = r.ahead ∧ r'.Printable := by
  obtain ⟨cur, ahead, steps, stop⟩ := r
  unfold Reader.pull TokenStream.next at hp
  cases steps with
  | nil =>
    cases hp
    exact ⟨Token.printable_endAt stop, rfl, rfl, h⟩
  | cons step rest =>
    cases step with
    | error e => cases hp
    | ok t =>
      cases hp
      exact ⟨h.steps t List.mem_cons_self, rfl, rfl, h.current, h.ahead,
        fun u hu => h.steps u (List.mem_cons_of_mem _ hu)⟩

theorem advance (h : r.Printable) (ha : Reader.advance r = .ok () r') : r'.Printable := by
  unfold Reader.advance at ha
  split at ha
  · cases ha
    exact h
  · split at ha
    · next t ht =>
      cases ha
      exact ⟨h.ahead t ht, nofun, h.steps⟩
    · next hnone =>
      split at ha
      · next t r'' hp =>
        cases ha
        obtain ⟨ht, -, -, hr⟩ := h.pull hp
        exact ⟨ht, hr.ahead, hr.steps⟩
      · cases ha

theorem isBlockStartAhead {b : Bool} (h : r.Printable)
    (ha : Reader.isBlockStartAhead r = .ok b r') : r'.Printable := by
  unfold Reader.isBlockStartAhead at ha
  split at ha
  · cases ha
    exact h
  · split at ha
    · next t r'' hp =>
      cases ha
      obtain ⟨ht, -, -, hr⟩ := h.pull hp
      exact ⟨hr.current, fun u hu => by cases hu; exact ht, hr.steps⟩
    · cases ha

end Reader.Printable

/-- A numeral without a sign does not stand for a negative number. -/
theorem readInteger_of_no_sign {cs : List Char} (hcs : '-' ∉ cs) {v : Int}
    (hv : readInteger cs = .ok v) : ∃ n : Nat, v = n := by
  have htrim : '-' ∉ trimBy isPadding cs := by
    intro hmem
    unfold trimBy trimEndBy at hmem
    rw [List.mem_reverse] at hmem
    have hmem := (List.dropWhile_sublist _).mem hmem
    rw [List.mem_reverse] at hmem
    exact hcs ((List.dropWhile_sublist _).mem hmem)
  have hsign : (splitSign (trimBy isPadding cs)).1 = false := by
    unfold splitSign
    split
    · next h => exact absurd (h ▸ List.mem_cons_self) htrim
    · rfl
    · rfl
  unfold readInteger at hv
  generalize splitSign (trimBy isPadding cs) = signed at hv hsign
  obtain ⟨negative, body⟩ := signed
  cases hsign
  dsimp only at hv
  split at hv
  · cases hv
  · split at hv
    · cases hv
    · split at hv
      · cases hv
        exact ⟨_, rfl⟩
      · cases hv

/-- The number of a printable token is not negative. -/
theorem Token.Printable.integerValue {t : Token} (h : t.Printable) (hk : t.kind = .integer)
    {v : Int} (hv : t.integerValue = .ok v) : ∃ n : Nat, v = n := by
  have hhex {ds : List Char} (h : (readHex? ds).elim (.error .malformed : Except NumeralFault Int)
      (fun n => .ok n) = .ok v) : ∃ n : Nat, v = n := by
    cases hds : readHex? ds with
    | none =>
      rw [hds] at h
      cases h
    | some n =>
      rw [hds] at h
      cases h
      exact ⟨n, rfl⟩
  unfold Token.integerValue at hv
  dsimp only at hv
  split at hv
  · exact hhex hv
  · exact hhex hv
  · exact readInteger_of_no_sign (h.integer hk) hv

namespace Expr

/-- An expression as the parser gives it: one that can be printed, with a place as it was read. -/
structure Fresh (e : Expr) : Prop where
  canonical : e.Canonical
  located : e.IsLocated

theorem Fresh.operand {e : Expr} (h : e.Fresh) : e.asOperand.Canonical := h.canonical.asOperand

end Expr

namespace Parser

variable {α β : Type} {P : α → Prop} {Q : β → ParseState → Prop}

/-- From printable tokens on, the parser gives what `Q` says of its result and of the state that it
ends in, and again there are printable tokens to come. -/
def Yields (Q : α → ParseState → Prop) (p : Parser α) : Prop :=
  ∀ env s, s.reader.Printable →
    p.Ends env s (fun a t => t.reader.Printable ∧ Q a t) fun _ => True

namespace Yields

theorem pure {b : β} (h : ∀ t, Q b t) : Yields Q (pure b) := by
  intro env s hs
  rw [ends_pure]
  exact ⟨hs, h s⟩

theorem throw (f : ParseFailure) : Yields Q (throw f) := by
  intro env s _
  rw [ends_throw]
  trivial

theorem fail (cause : ParseCause) : Yields Q (fail cause) := by
  intro env s _
  rw [ends_fail]
  trivial

theorem imp {R : β → ParseState → Prop} {p : Parser β} (h : Yields Q p)
    (hR : ∀ b t, Q b t → R b t) : Yields R p :=
  fun env s hs => (h env s hs).imp fun b t ⟨ht, hb⟩ => ⟨ht, hR b t hb⟩

theorem bind {p : Parser α} {f : α → Parser β} (hp : Yields (fun a _ => P a) p)
    (hf : ∀ a, P a → Yields Q (f a)) : Yields Q (p >>= f) :=
  fun env s hs => (hp env s hs).bind fun a t ⟨ht, ha⟩ => hf a ha env t ht

/-- A parser whose own result does not matter. -/
theorem after {p : Parser α} {f : α → Parser β} (hp : Yields (fun _ _ => True) p)
    (hf : ∀ a, Yields Q (f a)) : Yields Q (p >>= f) :=
  hp.bind fun a _ => hf a

/-- A node around a result, in the state that the result was given in. -/
theorem node {P : α → ParseState → Prop} {p : Parser α} {g : α → β} (hp : Yields P p)
    (hg : ∀ a t, P a t → Q (g a) t) : Yields Q (do return g (← p)) := by
  intro env s hs
  refine (hp env s hs).bind fun a t ⟨ht, ha⟩ => ?_
  rw [ends_pure]
  exact ⟨ht, hg a t ha⟩

/-- A parser that fails can be followed by anything. -/
theorem bind_fail {f : α → Parser β} (cause : ParseCause) :
    Yields Q (Parser.fail cause >>= f) :=
  bind (P := fun _ => False) (fail cause) fun _ h => h.elim

theorem ofCurrent {f : TokenKind → Parser β} (hf : ∀ t : Token, t.Printable → Yields Q (f t.kind)) :
    Yields Q (Parser.current >>= f) := by
  intro env s hs
  rw [ends_current_bind]
  exact hf _ hs.current env s hs

theorem current {f : TokenKind → Parser β} (hf : ∀ kind, Yields Q (f kind)) :
    Yields Q (Parser.current >>= f) :=
  ofCurrent fun _ _ => hf _

theorem line {f : Nat → Parser β} (hf : ∀ l, Yields Q (f l)) : Yields Q (line >>= f) := by
  intro env s hs
  rw [ends_line_bind]
  exact hf _ env s hs

theorem atMark {m : Mark} {f : Bool → Parser β} (hf : ∀ b, Yields Q (f b)) :
    Yields Q (atMark m >>= f) := by
  intro env s hs
  rw [ends_atMark_bind]
  exact hf _ env s hs

theorem token {f : Token → Parser β} (hf : ∀ t, t.Printable → Yields Q (f t)) :
    Yields Q (token >>= f) := by
  intro env s hs
  rw [ends_token_bind]
  exact hf _ hs.current env s hs

theorem read {f : ParseEnv → Parser β} (hf : ∀ env, Yields Q (f env)) : Yields Q (read >>= f) := by
  intro env s hs
  rw [ends_read_bind]
  exact hf _ env s hs

theorem ite {c : Bool} {p q : Parser β} (hp : Yields Q p) (hq : Yields Q q) :
    Yields Q (if c = true then p else q) := by
  split
  · exact hp
  · exact hq

theorem withLoop {inLoop : Bool} {p : Parser β} (h : Yields Q p) :
    Yields Q (withLoop inLoop p) :=
  fun env s hs => ends_withLoop (h { env with inLoop } s hs)

end Yields

theorem ofReader_yields {step : EStateM LexError Reader α}
    (h : ∀ r a r', r.Printable → step r = .ok a r' → r'.Printable) :
    Yields (fun _ _ => True) (ofReader step) := by
  intro env s hs
  constructor
  unfold ofReader
  cases hstep : step s.reader with
  | ok a r => exact ⟨h _ _ _ hs hstep, trivial⟩
  | error e r => trivial

theorem advance_yields : Yields (fun _ _ => True) advance :=
  ofReader_yields fun _ _ _ h ha => h.advance ha

theorem expect_yields (m : Mark) : Yields (fun _ _ => True) (expect m) :=
  .atMark fun _ => .ite advance_yields (.fail _)

theorem expectName_yields (otherwise : ParseCause) :
    Yields (fun n _ => IsName n) (expectName otherwise) := by
  refine .token fun t ht => ?_
  split
  · next hk => exact .after advance_yields fun _ => .pure fun _ => ht.name (eq_of_beq hk)
  · exact .fail _

/-! ## Expressions -/

section

variable {item next unary : Parser Expr} {n : Nat}

theorem chain_yields {O : Type} {op? : TokenKind → Option O} {build : O → Expr → Expr → Nat → Expr}
    (hbuild : ∀ op (a b : Expr) l, a.Fresh → b.Fresh →
      (build op a.asOperand b.asOperand l).Fresh)
    (hnext : Yields (fun e _ => e.Fresh) next) (turns : Nat) {lhs : Expr} (hlhs : lhs.Fresh) :
    Yields (fun e _ => e.Fresh) (chain op? build next turns lhs) := by
  induction turns generalizing lhs with
  | zero => exact .throw _
  | succ turns ih =>
    refine .current fun kind => ?_
    split
    · exact .pure fun _ => hlhs
    · exact .line fun l => .after advance_yields fun _ => hnext.bind fun rhs hrhs =>
        ih (hbuild _ _ _ l hlhs hrhs)

/-- Operands that can be printed. -/
def Operands (es : List Expr) : Prop := ∀ e ∈ es, e.IsOperand ∧ e.Canonical

theorem Operands.cons {e : Expr} {es : List Expr} (he : e.Fresh) (hes : Operands es) :
    Operands (e.asOperand :: es) :=
  List.forall_mem_cons.2 ⟨⟨e.isOperand_asOperand, he.operand⟩, hes⟩

theorem moreItems_yields (hitem : Yields (fun e _ => e.Fresh) item) (turns : Nat) :
    Yields (fun es _ => Operands es) (moreItems item turns) := by
  induction turns with
  | zero => exact .throw _
  | succ turns ih =>
    exact .atMark fun _ => .ite (.after advance_yields fun _ => hitem.bind fun e he =>
      ih.bind fun es hes => .pure fun _ => hes.cons he) (.pure fun _ => nofun)

theorem itemsUntil_yields (close : Mark) (hitem : Yields (fun e _ => e.Fresh) item) (turns : Nat) :
    Yields (fun es _ => Operands es) (itemsUntil close item turns) :=
  .atMark fun _ => .ite (.after advance_yields fun _ => .pure fun _ => nofun)
    (hitem.bind fun _ he => (moreItems_yields hitem turns).bind fun _ hes =>
      .after (expect_yields close) fun _ => .pure fun _ => hes.cons he)

variable (hu : Yields (fun e _ => e.Fresh) unary)

include hu

theorem productOf_yields : Yields (fun e _ => e.Fresh) (productOf unary n) :=
  hu.bind fun _ h => chain_yields (fun _ a b _ ha hb =>
    ⟨.arithmetic a.isOperand_asOperand b.isOperand_asOperand ha.operand hb.operand, rfl⟩) hu n h

theorem sumOf_yields : Yields (fun e _ => e.Fresh) (sumOf unary n) :=
  (productOf_yields hu).bind fun _ h => chain_yields (fun _ a b _ ha hb =>
    ⟨.arithmetic a.isOperand_asOperand b.isOperand_asOperand ha.operand hb.operand, rfl⟩)
    (productOf_yields hu) n h

theorem relationOf_yields : Yields (fun e _ => e.Fresh) (relationOf unary n) := by
  refine (sumOf_yields hu).bind fun a ha => .current fun kind => ?_
  split
  · exact .pure fun _ => ha
  · exact .line fun _ => .after advance_yields fun _ => (sumOf_yields hu).bind fun b hb =>
      .pure fun _ =>
        ⟨.relational a.isOperand_asOperand b.isOperand_asOperand ha.operand hb.operand, rfl⟩

theorem disjunctionOf_yields : Yields (fun e _ => e.Fresh) (disjunctionOf unary n) :=
  (relationOf_yields hu).bind fun _ h => chain_yields (fun _ a b _ ha hb =>
    ⟨.logical a.isOperand_asOperand b.isOperand_asOperand ha.operand hb.operand, rfl⟩)
    (relationOf_yields hu) n h

theorem expressionOf_yields : Yields (fun e _ => e.Fresh) (expressionOf unary n) :=
  (disjunctionOf_yields hu).bind fun _ h => chain_yields (fun _ a b _ ha hb =>
    ⟨.logical a.isOperand_asOperand b.isOperand_asOperand ha.operand hb.operand, rfl⟩)
    (disjunctionOf_yields hu) n h

theorem colorOf_yields : Yields (fun e _ => e.Fresh) (colorOf unary n) := by
  have hsum := sumOf_yields (n := n) hu
  have close (l : Nat) (cs : List Expr) (hlen : cs.length = 1 ∨ cs.length = 3 ∨ cs.length = 4)
      (hcs : ∀ c ∈ cs, c.Fresh) : Yields (fun e _ => e.Fresh) (do
        expect .bar
        return Expr.color (cs.map Expr.asOperand) l) := by
    refine .after (expect_yields _) fun _ => .pure fun _ => ⟨.color (by simpa using hlen)
      (fun c hc => Expr.isOperand_of_mem_map hc) fun c hc => ?_, rfl⟩
    obtain ⟨d, hd, rfl⟩ := List.mem_map.1 hc
    exact (hcs d hd).operand
  refine .line fun l => .after advance_yields fun _ => hsum.bind fun a ha => .atMark fun _ => ?_
  refine .ite (.after advance_yields fun _ => hsum.bind fun b hb => .after (expect_yields _)
    fun _ => hsum.bind fun c hc => .atMark fun _ => .ite (.after advance_yields fun _ =>
      hsum.bind fun d hd => ?_) ?_) ?_
  · exact close l [a, b, c, d] (by simp) (by simp [ha, hb, hc, hd])
  · exact close l [a, b, c] (by simp) (by simp [ha, hb, hc])
  · exact close l [a] (by simp) (by simp [ha])

theorem vectorOf_yields : Yields (fun e _ => e.Fresh) (vectorOf unary n) :=
  .line fun _ => .after advance_yields fun _ => (sumOf_yields hu).bind fun x hx =>
    .after (expect_yields _) fun _ => (sumOf_yields hu).bind fun y hy =>
      .after (expect_yields _) fun _ => .pure fun _ =>
        ⟨.vector x.isOperand_asOperand y.isOperand_asOperand hx.operand hy.operand, rfl⟩

theorem primaryOf_yields : Yields (fun e _ => e.Fresh) (primaryOf unary n) := by
  have hitems (close : Mark) := itemsUntil_yields close (expressionOf_yields (n := n) hu) n
  refine .token fun t ht => ?_
  dsimp only
  split
  · next hk =>
    split
    · exact .throw _
    · next v hv =>
      obtain ⟨v, rfl⟩ := ht.integerValue hk hv
      exact .after advance_yields fun _ => .pure fun _ => ⟨.integer, rfl⟩
  · next hk => exact absurd hk ht.real
  · exact .after advance_yields fun _ => .pure fun _ => ⟨.string, rfl⟩
  · exact .after advance_yields fun _ => .pure fun _ => ⟨.boolean, rfl⟩
  · exact .after advance_yields fun _ => .pure fun _ => ⟨.boolean, rfl⟩
  · exact .after advance_yields fun _ => .pure fun _ => ⟨.undefined, rfl⟩
  · next hk => exact .after advance_yields fun _ => .pure fun _ => ⟨.name (ht.name hk), rfl⟩
  · refine .after advance_yields fun _ => (expectName_yields _).bind fun name hname =>
      .atMark fun _ => .ite (.after advance_yields fun _ => (hitems _).bind fun es hes =>
        .pure fun _ => ⟨.new hname (fun e he => (hes e he).1) fun e he => (hes e he).2, rfl⟩)
        (.pure fun _ => ⟨.new hname nofun nofun, rfl⟩)
  · exact colorOf_yields hu
  · exact vectorOf_yields hu
  · exact .after advance_yields fun _ => (hitems _).bind fun es hes => .pure fun _ =>
      ⟨.list (fun e he => (hes e he).1) fun e he => (hes e he).2, rfl⟩
  · exact .after advance_yields fun _ => (expressionOf_yields hu).bind fun e he =>
      .after (expect_yields _) fun _ => .pure fun _ => he
  · exact .fail _

omit hu in
theorem selectors_yields {expression : Parser Expr} (hexpr : Yields (fun e _ => e.Fresh) expression)
    (bound turns : Nat) {e : Expr} (he : e.Fresh) :
    Yields (fun e _ => e.Fresh) (selectors expression bound turns e) := by
  induction turns generalizing e with
  | zero => exact .throw _
  | succ turns ih =>
    refine .line fun l => .current fun kind => ?_
    split
    · exact .after advance_yields fun _ => (expectName_yields _).bind fun name hname =>
        ih ⟨.member e.isOperand_asOperand he.operand hname, rfl⟩
    · exact .after advance_yields fun _ => hexpr.bind fun i hi => .after (expect_yields _) fun _ =>
        ih ⟨.index e.isOperand_asOperand i.isOperand_asOperand he.operand hi.operand, rfl⟩
    · exact .after advance_yields fun _ => (itemsUntil_yields _ hexpr bound).bind fun es hes =>
        ih ⟨.call e.isOperand_asOperand (fun e h => (hes e h).1) he.operand fun e h => (hes e h).2,
          rfl⟩
    · exact .pure fun _ => he

theorem suffixedOf_yields : Yields (fun e _ => e.Fresh) (suffixedOf unary n) := by
  refine (primaryOf_yields hu).bind fun first hfirst =>
    (selectors_yields (expressionOf_yields hu) n n hfirst).bind fun e he => .current fun kind => ?_
  split
  · split
    · next hloc =>
      exact .line fun _ => .after advance_yields fun _ => .pure fun _ =>
        ⟨.postIncrement hloc he.canonical, rfl⟩
    · exact .pure fun _ => he
  · exact .pure fun _ => he

end

theorem unary_yields (n : Nat) : Yields (fun e _ => e.Fresh) (unary n) := by
  induction n with
  | zero => exact .throw _
  | succ n ih =>
    refine .line fun l => .current fun kind => ?_
    split
    · exact .after advance_yields fun _ => ih
    · exact .after advance_yields fun _ => ih.bind fun e he => .pure fun _ =>
        ⟨.negate e.isOperand_asOperand he.operand, rfl⟩
    · exact .after advance_yields fun _ => ih.bind fun e he => .pure fun _ =>
        ⟨.not e.isOperand_asOperand he.operand, rfl⟩
    · split
      · refine .after advance_yields fun _ => (suffixedOf_yields ih).bind fun e he => ?_
        split
        · next hloc => exact .pure fun _ => ⟨.preIncrement hloc he.canonical, rfl⟩
        · exact .fail _
      · exact suffixedOf_yields ih

theorem expression_yields (n : Nat) : Yields (fun e _ => e.Fresh) (expression n) :=
  expressionOf_yields (unary_yields n)

end Parser

end CellScript
