import CellScript.Proofs.Located.Lines
import CellScript.Proofs.Numeric.Unsigned
import CellScript.Proofs.Parse.Formed
import CellScript.Proofs.Parse.Numbers
import CellScript.Proofs.Parse.Outcome
import CellScript.Proofs.Token.Partition

/-!
# Lines and reals of what is read

Every token of a text stands on one of its lines (`InLines`), and so does its end; a real among the
tokens stands for a double without a sign. A parser makes its nodes from tokens, and fails where one
stands.

* `Token.Within L`, `Reader.Within L`: tokens on lines in `L`;
* `Expr.Within L`: an expression with its nodes on such lines, and without signed reals;
* `Parser.Within L Q`: from tokens within `L` on, the parser gives what `Q` says and leaves such
  tokens, or fails on a line in `L` of the file that it is in.

There is one lemma for each production; `unary` closes the recursion by induction on its bound.
-/

namespace CellScript

/-! ## Tokens of a text -/

/-- The number of lines of a text. -/
def lineCount (text : List Char) : Nat := 1 + text.count '\n'

/-- A line of a text. -/
def InLines (text : List Char) (line : Nat) : Prop := 1 ≤ line ∧ line ≤ lineCount text

/-- A token on a line in `L`; if it is a real, then without a sign. -/
structure Token.Within (L : Nat → Prop) (t : Token) : Prop where
  line : L t.line
  real : t.kind = .real → ∀ x, t.realValue? = some x → Binary64.Unsigned x

/-- The tokens, faults and end of a stream are on lines in `L`. -/
structure TokenStream.Within (L : Nat → Prop) (s : TokenStream) : Prop where
  tokens : ∀ t, .ok t ∈ s.steps → t.Within L
  faults : ∀ e, .error e ∈ s.steps → L e.line
  stop : L s.stop.line

/-- All that is to be read is on lines in `L`. -/
structure Reader.Within (L : Nat → Prop) (r : Reader) : Prop where
  current : r.current.Within L
  ahead : ∀ t ∈ r.ahead, t.Within L
  stream : r.stream.Within L

/-- A step of a reader stays within `L`, and a fault that it meets is there too. -/
def Reader.Leads {β : Type} (L : Nat → Prop) (step : EStateM LexError Reader β) : Prop :=
  ∀ r : Reader, r.Within L →
    match step r with
    | .ok _ r' => r'.Within L
    | .error e _ => L e.line

theorem InLines.counted {text before rest : List Char} (h : text = before ++ rest) :
    InLines text (Position.counted before).line := by
  have hcount : text.count '\n' = before.count '\n' + rest.count '\n' := by
    rw [h, List.count_append]
  have hline : (Position.counted before).line = 1 + before.count '\n' := rfl
  rw [InLines, lineCount, hline]
  omega

theorem TokenStream.lines_scanFrom {n : Nat} {text cs : List Char} (before : List Char)
    (htext : text = before ++ cs) (hn : cs.length ≤ n) :
    (∀ t, .ok t ∈ (scanFrom n (.counted before) cs).steps → InLines text t.line) ∧
      (∀ e, .error e ∈ (scanFrom n (.counted before) cs).steps → InLines text e.line) ∧
      InLines text (scanFrom n (.counted before) cs).stop.line := by
  induction n generalizing before cs with
  | zero =>
    exact ⟨nofun, nofun, .counted htext⟩
  | succ n ih =>
    cases cs with
    | nil => exact ⟨nofun, nofun, .counted htext⟩
    | cons c cs =>
      have hlength := Lexer.scan_rest_length c cs
      rw [List.length_cons] at hn
      obtain ⟨htokens, hfaults, hstop⟩ := ih (before ++ (Lexer.scan c cs).lexeme)
        (by rw [List.append_assoc, Lexer.scan_append, htext]) (hlength.trans (by omega))
      have hhere : InLines text (Position.counted before).line := .counted htext
      rw [Position.counted_append] at htokens hfaults hstop
      unfold scanFrom
      dsimp only
      split
      · exact ⟨htokens, hfaults, hstop⟩
      · refine ⟨fun t ht => ?_, fun e he => hfaults e ?_, hstop⟩
        · rcases List.mem_cons.1 ht with h | h
          · cases h
            exact hhere
          · exact htokens t h
        · exact (List.mem_cons.1 he).resolve_left nofun
      · refine ⟨fun t ht => htokens t ?_, fun e he => ?_, hstop⟩
        · exact (List.mem_cons.1 ht).resolve_left nofun
        · rcases List.mem_cons.1 he with h | h
          · cases h
            exact hhere
          · exact hfaults e h

/-- The text of a real is digits around a point. -/
theorem Token.unsigned_of_shape {t : Token} (h : TokenKind.Shape .real t.value.toList) {x : Float}
    (hx : t.realValue? = some x) : Binary64.Unsigned x := by
  unfold Token.realValue? at hx
  generalize t.value.toList = text at h hx
  cases h with
  | real hne hds =>
    refine unsigned_of_readReal? (fun c hc => ?_) (by simp) hx
    rw [List.mem_append, List.mem_cons] at hc
    rcases hc with hc | hc | hc
    · exact .inl (hds c (List.mem_append_left _ hc))
    · exact .inr hc
    · exact .inl (hds c (List.mem_append_right _ hc))

/-- The tokens of a text are on its lines. -/
theorem TokenStream.within_ofChars {L : Nat → Prop} {cs : List Char} (h : ∀ l, InLines cs l → L l) :
    (ofChars cs).Within L := by
  obtain ⟨htokens, hfaults, hstop⟩ :=
    lines_scanFrom [] (show cs = [] ++ cs from rfl) (Nat.le_refl cs.length)
  refine ⟨fun t ht => ⟨h _ (htokens t ht), fun hk x hx => ?_⟩, fun e he => h _ (hfaults e he),
    h _ hstop⟩
  have hshape := shape_of_mem ht (by rw [hk]; nofun)
  rw [hk] at hshape
  exact t.unsigned_of_shape hshape hx

section

variable {L : Nat → Prop}

theorem TokenStream.Within.endAt {s : TokenStream} (h : s.Within L) :
    (Token.endAt s.stop).Within L :=
  ⟨h.stop, nofun⟩

/-- Taking a step of a stream leaves the others. -/
theorem TokenStream.Within.next {s : TokenStream} (h : s.Within L) :
    (∀ t, s.next.1 = .ok t → t.Within L) ∧ (∀ e, s.next.1 = .error e → L e.line) ∧
      s.next.2.Within L := by
  obtain ⟨steps, stop⟩ := s
  cases steps with
  | nil => exact ⟨fun t ht => by cases ht; exact h.endAt, nofun, h⟩
  | cons step rest =>
    exact ⟨fun t ht => h.tokens t (ht ▸ List.mem_cons_self),
      fun e he => h.faults e (he ▸ List.mem_cons_self),
      fun t ht => h.tokens t (List.mem_cons_of_mem _ ht),
      fun e he => h.faults e (List.mem_cons_of_mem _ he), h.stop⟩

namespace Reader.Within

variable {r r' : Reader} {e : LexError}

theorem ofStream {s : TokenStream} (h : s.Within L) :
    match Reader.ofStream s with
    | .ok r => r.Within L
    | .error e => L e.line := by
  obtain ⟨htoken, hfault, hrest⟩ := h.next
  unfold Reader.ofStream
  cases hnext : s.next with
  | mk step rest =>
    rw [hnext] at htoken hfault hrest
    cases step with
    | ok t => exact ⟨htoken t rfl, nofun, hrest⟩
    | error e => exact hfault e rfl

theorem pull (h : r.Within L) :
    match Reader.pull r with
    | .ok t r' => t.Within L ∧ r'.current = r.current ∧ r'.ahead = r.ahead ∧ r'.stream.Within L
    | .error e _ => L e.line := by
  obtain ⟨htoken, hfault, hrest⟩ := h.stream.next
  unfold Reader.pull
  cases hnext : r.stream.next with
  | mk step rest =>
    rw [hnext] at htoken hfault hrest
    cases step with
    | ok t => exact ⟨htoken t rfl, rfl, rfl, hrest⟩
    | error e => exact hfault e rfl

theorem advance : Leads L Reader.advance := by
  intro r h
  have hpull := h.pull
  unfold Reader.advance
  by_cases hend : r.current.kind = .endOfSource
  · rw [if_pos hend]
    exact h
  rw [if_neg hend]
  cases hahead : r.ahead with
  | some t => exact ⟨h.ahead t hahead, nofun, h.stream⟩
  | none =>
    cases hp : Reader.pull r with
    | ok t r' =>
      rw [hp] at hpull
      obtain ⟨ht, -, hsame, hstream⟩ := hpull
      exact ⟨ht, fun u hu => by simp [hsame, hahead] at hu, hstream⟩
    | error e r' =>
      rw [hp] at hpull
      exact hpull

theorem isBlockStartAhead : Leads L Reader.isBlockStartAhead := by
  intro r h
  have hpull := h.pull
  unfold Reader.isBlockStartAhead
  cases hahead : r.ahead with
  | some t => exact h
  | none =>
    cases hp : Reader.pull r with
    | ok t r' =>
      rw [hp] at hpull
      obtain ⟨ht, hcurrent, -, hstream⟩ := hpull
      exact ⟨hcurrent ▸ h.current, fun u hu => by cases hu; exact ht, hstream⟩
    | error e r' =>
      rw [hp] at hpull
      exact hpull

end Reader.Within

end

/-! ## Expressions on such lines -/

/-- The nodes of the expression are on lines in `L`, and its reals have no sign. -/
inductive Expr.Within (L : Nat → Prop) : Expr → Prop
  | node {e : Expr} (line : L e.line) (real : ∀ x l, e = .real x l → Binary64.Unsigned x)
    (parts : ∀ part ∈ e.parts, Expr.Within L part.2) : Expr.Within L e

namespace Expr.Within

variable {L : Nat → Prop} {e : Expr}

theorem line (h : e.Within L) : L e.line := by
  cases h
  assumption

theorem real {x : Float} {l : Nat} (h : (Expr.real x l).Within L) : Binary64.Unsigned x := by
  cases h with
  | node _ real _ => exact real x l rfl

theorem part (h : e.Within L) {part : Use × Expr} (hpart : part ∈ e.parts) :
    part.2.Within L := by
  cases h with
  | node _ _ parts => exact parts part hpart

/-- Marking a place as an operand moves nothing. -/
theorem asOperand (h : e.Within L) : e.asOperand.Within L := by
  cases e with
  | name | member | index => exact .node h.line nofun fun _ hpart => h.part hpart
  | _ => exact h

section

variable {a b : Expr} {l : Nat}

theorem arithmetic (op : ArithmeticOp) (ha : a.Within L) (hb : b.Within L) (hl : L l) :
    (Expr.arithmetic op a b l).Within L :=
  .node hl nofun (by simp [ha, hb])

theorem relational (op : RelationalOp) (ha : a.Within L) (hb : b.Within L) (hl : L l) :
    (Expr.relational op a b l).Within L :=
  .node hl nofun (by simp [ha, hb])

theorem logical (op : LogicalOp) (ha : a.Within L) (hb : b.Within L) (hl : L l) :
    (Expr.logical op a b l).Within L :=
  .node hl nofun (by simp [ha, hb])

end

/-- All lines of an expression are in `L`. -/
theorem lines (h : e.Within L) : ∀ l ∈ e.lines, L l := by
  have all {es : List Expr} (hes : ∀ e ∈ es, ∀ l ∈ e.lines, L l) : ∀ l ∈ linesAll es, L l := by
    induction es with
    | nil => exact nofun
    | cons e es ih =>
      intro l hl
      rcases List.mem_append.1 hl with hl | hl
      · exact hes e List.mem_cons_self l hl
      · exact ih (fun e he => hes e (List.mem_cons_of_mem _ he)) l hl
  induction h with
  | @node e line _ parts ih =>
    cases e with
    | color es _ | list es _ | new _ es _ =>
      have hes : ∀ l ∈ linesAll es, L l := all (by simpa using ih)
      simpa [Expr.lines] using ⟨line, hes⟩
    | call f es _ =>
      have hes : ∀ l ∈ linesAll es, L l := all fun e he => ih (.operand, e) (by simp [he])
      have hf := ih (.operand, f) (by simp)
      intro l hl
      rcases List.mem_cons.1 hl with rfl | hl
      · exact line
      · exact (List.mem_append.1 hl).elim (hf l) (hes l)
    | _ =>
      simp only [Expr.line] at line
      simp_all [Expr.lines, or_imp, forall_and]

end Expr.Within

/-! ## Parsers -/

/-- A failure that a parser raises by itself: if it points into a source, then into the file with
this path, on a line in `L`. -/
def ParseFailure.At (path : Option String) (L : Nat → Prop) : ParseFailure → Prop
  | .malformed e => e.path = path ∧ L e.line
  | .unreadable _ _ => False
  | _ => True

namespace Parser

section

variable {α β : Type} {L : Nat → Prop} {P : α → Prop} {Q : β → Prop}

/-- From tokens on lines in `L` on, the parser gives what `Q` says and leaves such tokens, or it
fails on a line in `L` of the file that it is in. -/
def Within (L : Nat → Prop) (Q : β → Prop) (p : Parser β) : Prop :=
  ∀ env s, s.reader.Within L →
    p.Ends env s (fun a t => t.reader.Within L ∧ Q a) (·.At env.path L)

namespace Within

theorem pure {b : β} (h : Q b) : Within L Q (pure b) := by
  intro env s hs
  rw [ends_pure]
  exact ⟨hs, h⟩

theorem throw {f : ParseFailure} (h : ∀ path, f.At path L) : Within L Q (throw f) := by
  intro env s _
  rw [ends_throw]
  exact h env.path

theorem failAt (cause : ParseCause) {l : Nat} (hl : L l) : Within L Q (failAt cause l) := by
  intro env s _
  rw [ends_failAt]
  exact ⟨rfl, hl⟩

theorem fail (cause : ParseCause) : Within L Q (fail cause) := by
  intro env s hs
  rw [ends_fail]
  exact ⟨rfl, hs.current.line⟩

theorem bind {p : Parser α} {f : α → Parser β} (hp : Within L P p)
    (hf : ∀ a, P a → Within L Q (f a)) : Within L Q (p >>= f) :=
  fun env s hs => (hp env s hs).bind fun a t ⟨ht, ha⟩ => hf a ha env t ht

/-- A parser whose own result does not matter. -/
theorem after {p : Parser α} {f : α → Parser β} (hp : Within L (fun _ => True) p)
    (hf : ∀ a, Within L Q (f a)) : Within L Q (p >>= f) :=
  hp.bind fun a _ => hf a

/-- What stands behind a failure is not read. -/
theorem fail_bind (cause : ParseCause) (f : α → Parser β) : Within L Q (Parser.fail cause >>= f) :=
  (fail (Q := fun _ => False) cause).bind fun _ h => h.elim

/-- A step of the reader fails on the line of a fault. -/
theorem ofReader {step : EStateM LexError Reader β}
    (h : Reader.Leads L step) : Within L (fun _ => True) (ofReader step) := by
  intro env s hs
  have hstep := h s.reader hs
  constructor
  unfold Parser.ofReader
  cases hr : step s.reader with
  | ok a r =>
    rw [hr] at hstep
    exact ⟨hstep, trivial⟩
  | error e r =>
    rw [hr] at hstep
    exact ⟨rfl, hstep⟩

theorem token : Within L (·.Within L) token := fun _ _ hs => ⟨hs, hs.current⟩

theorem line : Within L L line := fun _ _ hs => ⟨hs, hs.current.line⟩

theorem current : Within L (fun _ => True) current := fun _ _ hs => ⟨hs, trivial⟩

theorem read : Within L (fun _ => True) read := fun _ _ hs => ⟨hs, trivial⟩

theorem tokensLeft : Within L (fun _ => True) tokensLeft := fun _ _ hs => ⟨hs, trivial⟩

theorem freshId : Within L (fun _ => True) freshId := fun _ _ hs => ⟨hs, trivial⟩

theorem atMark (m : Mark) : Within L (fun _ => True) (atMark m) := fun _ _ hs => ⟨hs, trivial⟩

theorem advance : Within L (fun _ => True) advance := ofReader Reader.Within.advance

theorem expect (m : Mark) : Within L (fun _ => True) (expect m) := by
  refine (atMark m).after fun here => ?_
  split
  · exact advance
  · exact fail _

theorem expectName (otherwise : ParseCause) : Within L (fun _ => True) (expectName otherwise) := by
  refine token.bind fun t _ => ?_
  split
  · exact advance.after fun _ => pure trivial
  · exact fail _

end Within

end

/-! ## Expressions -/

section

variable {L : Nat → Prop} {item next unary : Parser Expr} {n : Nat}

/-- The parser gives an expression on lines in `L`. -/
abbrev ExprWithin (L : Nat → Prop) (p : Parser Expr) : Prop := Within L (·.Within L) p

/-- The parser gives expressions on lines in `L`. -/
abbrev ExprsWithin (L : Nat → Prop) (p : Parser (List Expr)) : Prop :=
  Within L (fun es => ∀ e ∈ es, e.Within L) p

/-- A node made of others, on a line of its own. -/
theorem node_within {e : Expr} (hl : L e.line) (hreal : ∀ x l, e ≠ .real x l)
    (hparts : ∀ part ∈ e.parts, part.2.Within L) : ExprWithin L (pure e) :=
  .pure (.node hl (fun x l h => absurd h (hreal x l)) hparts)

theorem chain_within {O : Type} {op? : TokenKind → Option O} {build : O → Expr → Expr → Nat → Expr}
    (hbuild : ∀ op {lhs rhs l}, lhs.Within L → rhs.Within L → L l → (build op lhs rhs l).Within L)
    (hnext : ExprWithin L next) (turns : Nat) {lhs : Expr} (hlhs : lhs.Within L) :
    ExprWithin L (chain op? build next turns lhs) := by
  induction turns generalizing lhs with
  | zero => exact .throw fun _ => trivial
  | succ turns ih =>
    refine Within.current.after fun kind => ?_
    split
    · exact .pure hlhs
    · exact Within.line.bind fun l hl => Within.advance.after fun _ => hnext.bind fun rhs hrhs =>
        ih (hbuild _ hlhs.asOperand hrhs.asOperand hl)

theorem moreItems_within (hitem : ExprWithin L item) (turns : Nat) :
    ExprsWithin L (moreItems item turns) := by
  induction turns with
  | zero => exact .throw fun _ => trivial
  | succ turns ih =>
    refine (Within.atMark _).after fun more => ?_
    split
    · exact Within.advance.after fun _ => hitem.bind fun e he => ih.bind fun es hes =>
        .pure (List.forall_mem_cons.2 ⟨he.asOperand, hes⟩)
    · exact .pure nofun

theorem itemsUntil_within (close : Mark) (hitem : ExprWithin L item) (turns : Nat) :
    ExprsWithin L (itemsUntil close item turns) := by
  refine (Within.atMark _).after fun atEnd => ?_
  split
  · exact Within.advance.after fun _ => .pure nofun
  · exact hitem.bind fun e he => (moreItems_within hitem turns).bind fun es hes =>
      (Within.expect _).after fun _ => .pure (List.forall_mem_cons.2 ⟨he.asOperand, hes⟩)

variable (hu : ExprWithin L unary)

include hu

theorem productOf_within : ExprWithin L (productOf unary n) :=
  hu.bind fun _ h =>
    chain_within (fun op => .arithmetic op) hu n h

theorem sumOf_within : ExprWithin L (sumOf unary n) :=
  (productOf_within hu).bind fun _ h =>
    chain_within (fun op => .arithmetic op) (productOf_within hu) n h

theorem relationOf_within : ExprWithin L (relationOf unary n) := by
  refine (sumOf_within hu).bind fun lhs hlhs => Within.current.after fun kind => ?_
  split
  · exact .pure hlhs
  · exact Within.line.bind fun l hl => Within.advance.after fun _ => (sumOf_within hu).bind
      fun rhs hrhs => .pure (.relational _ hlhs.asOperand hrhs.asOperand hl)

theorem disjunctionOf_within : ExprWithin L (disjunctionOf unary n) :=
  (relationOf_within hu).bind fun _ h =>
    chain_within (fun op => .logical op) (relationOf_within hu) n h

theorem expressionOf_within : ExprWithin L (expressionOf unary n) :=
  (disjunctionOf_within hu).bind fun _ h =>
    chain_within (fun op => .logical op) (disjunctionOf_within hu) n h

theorem colorOf_within : ExprWithin L (colorOf unary n) := by
  have sum := sumOf_within (n := n) hu
  have close {l : Nat} (hl : L l) {cs : List Expr} (hcs : ∀ c ∈ cs, c.Within L) :
      ExprWithin L (do
        expect .bar
        return Expr.color (cs.map Expr.asOperand) l) :=
    (Within.expect _).after fun _ =>
      node_within hl nofun (by simpa using fun c hc => (hcs c hc).asOperand)
  refine Within.line.bind fun l hl => Within.advance.after fun _ => sum.bind fun first h₁ =>
    (Within.atMark _).after fun more => ?_
  split
  · refine Within.advance.after fun _ => sum.bind fun second h₂ => (Within.expect _).after fun _ =>
      sum.bind fun third h₃ => (Within.atMark _).after fun more => ?_
    split
    · exact Within.advance.after fun _ => sum.bind fun fourth h₄ =>
        close hl (by simp [h₁, h₂, h₃, h₄])
    · exact close hl (by simp [h₁, h₂, h₃])
  · exact close hl (by simp [h₁])

theorem vectorOf_within : ExprWithin L (vectorOf unary n) :=
  Within.line.bind fun _ hl => Within.advance.after fun _ => (sumOf_within hu).bind fun _ hx =>
    (Within.expect _).after fun _ => (sumOf_within hu).bind fun _ hy =>
    (Within.expect _).after fun _ => node_within hl nofun (by simp [hx.asOperand, hy.asOperand])

theorem primaryOf_within : ExprWithin L (primaryOf unary n) := by
  have items (close : Mark) := itemsUntil_within close (expressionOf_within (n := n) hu) n
  have literal {e : Expr} (he : e.Within L) : ExprWithin L (do advance; return e) :=
    Within.advance.after fun _ => .pure he
  refine Within.token.bind fun t ht => ?_
  have hl := ht.line
  dsimp only
  split
  · split
    · exact .throw fun _ => trivial
    · exact literal (.node hl nofun nofun)
  · next hk =>
    split
    · exact .throw fun _ => trivial
    · next v hv => exact literal (.node hl (fun x l h => by cases h; exact ht.real hk v hv) nofun)
  · exact literal (.node hl nofun nofun)
  · exact literal (.node hl nofun nofun)
  · exact literal (.node hl nofun nofun)
  · exact literal (.node hl nofun nofun)
  · exact literal (.node hl nofun nofun)
  · refine Within.advance.after fun _ => (Within.expectName _).after fun name =>
      (Within.atMark _).after fun called => ?_
    split
    · exact Within.advance.after fun _ => (items _).bind fun es hes =>
        node_within hl nofun (by simpa using hes)
    · exact node_within hl nofun nofun
  · exact colorOf_within hu
  · exact vectorOf_within hu
  · exact Within.advance.after fun _ => (items _).bind fun es hes =>
      node_within hl nofun (by simpa using hes)
  · exact Within.advance.after fun _ => (expressionOf_within hu).bind fun e he =>
      (Within.expect _).after fun _ => .pure he
  · exact .fail _

omit hu in
theorem selectors_within {expression : Parser Expr} (hexpr : ExprWithin L expression)
    (bound turns : Nat) {e : Expr} (he : e.Within L) :
    ExprWithin L (selectors expression bound turns e) := by
  induction turns generalizing e with
  | zero => exact .throw fun _ => trivial
  | succ turns ih =>
    have operand := he.asOperand
    refine Within.line.bind fun l hl => Within.current.after fun kind => ?_
    split
    · exact Within.advance.after fun _ => (Within.expectName _).after fun name =>
        ih (.node hl nofun (by simpa using operand))
    · exact Within.advance.after fun _ => hexpr.bind fun i hi => (Within.expect _).after fun _ =>
        ih (.node hl nofun (by simp [operand, hi.asOperand]))
    · exact Within.advance.after fun _ => (itemsUntil_within _ hexpr bound).bind fun es hes =>
        ih (.node hl nofun (by simpa [operand] using hes))
    · exact .pure he

theorem suffixedOf_within : ExprWithin L (suffixedOf unary n) := by
  refine (primaryOf_within hu).bind fun first hfirst =>
    (selectors_within (expressionOf_within hu) n n hfirst).bind fun e he =>
    Within.current.after fun kind => ?_
  split
  · split
    · exact Within.line.bind fun _ hl => Within.advance.after fun _ =>
        node_within hl nofun (by simpa using he)
    · exact .pure he
  · exact .pure he

end

theorem unary_within {L : Nat → Prop} (n : Nat) : ExprWithin L (unary n) := by
  induction n with
  | zero => exact .throw fun _ => trivial
  | succ n ih =>
    refine Within.line.bind fun l hl => Within.current.after fun kind => ?_
    split
    · exact Within.advance.after fun _ => ih
    · exact Within.advance.after fun _ => ih.bind fun e he =>
        node_within hl nofun (by simpa using he.asOperand)
    · exact Within.advance.after fun _ => ih.bind fun e he =>
        node_within hl nofun (by simpa using he.asOperand)
    · split
      · refine Within.advance.after fun _ => (suffixedOf_within ih).bind fun e he => ?_
        split
        · exact node_within hl nofun (by simpa using he)
        · exact .fail _
      · exact suffixedOf_within ih

theorem expression_within {L : Nat → Prop} (n : Nat) : ExprWithin L (expression n) :=
  expressionOf_within (unary_within n)

end Parser

end CellScript
