import CellScript.Parse.Script
import CellScript.Proofs.Print.Levels
import CellScript.Proofs.Token.Closing

/-!
# Integers in a source

The text of an integer is one token, whatever stands behind it as long as that does not go on with
the integer. As a token it is an operand, and if no operator follows it, it is the whole expression.
What it stands for is read from its characters when the parser takes it.

* `isIntegerToken_of_shape`: the text alone is one token;
* `Parser.expression_integer`: what the parser makes of the token, at any place;
* `parseText_returning_integer`: what it makes of a text that returns the integer;
* `IsReadAs`: all of this, for a text and the value of its token.
-/

namespace CellScript

/-! ## The token -/

/-- The text is one integer token and nothing else. -/
def IsIntegerToken (text : String) : Prop :=
  (TokenStream.ofString text).tokens =
    ([⟨.integer, text, .start⟩, .endAt (Position.start.advance text.toList)], none)

section

variable {text : String} (h : TokenKind.Shape .integer text.toList)

include h

/-- In front of what ends an integer, the text is taken as one token. -/
theorem scanFrom_integer {rest : List Char} (hrest : Lexeme.EndsInteger rest) (p : Position)
    {n : Nat} (hn : (text.toList ++ rest).length ≤ n) :
    ∃ m, rest.length ≤ m ∧ TokenStream.scanFrom n p (text.toList ++ rest) =
      (TokenStream.scanFrom m (p.advance text.toList) rest).cons (.ok ⟨.integer, text, p⟩) := by
  obtain ⟨c, cs, htext, hscan⟩ := Lexeme.scan_integer hrest h
  rw [String.ofList_toList] at hscan
  rw [List.length_append, htext, List.length_cons] at hn
  obtain ⟨n, rfl⟩ := Nat.exists_eq_succ_of_ne_zero (n := n) (by rintro rfl; simp at hn)
  refine ⟨n, by omega, ?_⟩
  rw [htext, List.cons_append, TokenStream.scanFrom, hscan, htext]

theorem isIntegerToken_of_shape : IsIntegerToken text := by
  have hends : Lexeme.EndsInteger [] := nofun
  obtain ⟨m, -, hscan⟩ := scanFrom_integer h hends .start (Nat.le_refl _)
  have hend : TokenStream.scanFrom m (Position.start.advance text.toList) [] =
      ⟨[], Position.start.advance text.toList⟩ := by
    cases m <;> rfl
  rw [List.append_nil, hend] at hscan
  unfold IsIntegerToken TokenStream.ofString TokenStream.ofChars
  rw [hscan, TokenStream.tokens_cons_ok]
  rfl

/-- The tokens of a text that returns the integer. -/
theorem steps_returning_integer : ∃ p q : Position, p.line = 1 ∧
    (TokenStream.ofString s!"return {text};").steps =
      [.ok ⟨.keyword .return, "return", .start⟩, .ok ⟨.integer, text, p⟩,
        .ok ⟨.mark .semicolon, ";", q⟩] := by
  have hends : Lexeme.EndsInteger [';'] := by
    rintro c ⟨⟩
    decide
  obtain ⟨m, hm, hscan⟩ := scanFrom_integer h hends (Position.start.advance "return ".toList)
    (n := (text.toList ++ [';']).length + 5) (Nat.le_add_right _ _)
  obtain ⟨m, rfl⟩ := Nat.exists_eq_succ_of_ne_zero (n := m) (by rintro rfl; simp at hm)
  refine ⟨Position.start.advance "return ".toList,
    (Position.start.advance "return ".toList).advance text.toList, rfl, ?_⟩
  unfold TokenStream.ofString
  rw [TokenStream.toList_returning, TokenStream.steps_returning, hscan]
  cases m <;> rfl

end

/-! ## The literal -/

namespace Parser

variable {env : ParseEnv} {s t : ParseState} {P : Expr → Prop} {F : ParseFailure → Prop}

section

variable (hstop : t.reader.current.kind.binding? = none)

include hstop

/-- Such an operand is a whole chain of operands. -/
theorem Ends.chain {O : Type} {op? : TokenKind → Option O} {build : O → Expr → Expr → Nat → Expr}
    {p next : Parser Expr} {k turns : Nat} (h : p.Ends env s (fun e u => u = t ∧ P e) F)
    (hop : ∀ kind op, op? kind = some op → kind.binding? = some k) :
    (p >>= Parser.chain op? build next (turns + 1)).Ends env s (fun e u => u = t ∧ P e) F := by
  refine h.bind ?_
  rintro e u ⟨rfl, he⟩
  exact (ends_chain (TokenKind.op?_eq_none hop (by simp [hstop]))).2 ⟨rfl, he⟩

/-- With no operator behind an operand every level of binding comes to its end. -/
theorem Ends.expressionOf {p : Parser Expr} (h : p.Ends env s (fun e u => u = t ∧ P e) F)
    (n : Nat) : (expressionOf p (n + 1)).Ends env s (fun e u => u = t ∧ P e) F := by
  have product : (productOf p (n + 1)).Ends env s (fun e u => u = t ∧ P e) F :=
    h.chain hstop binding?_of_productOp?
  have sum : (sumOf p (n + 1)).Ends env s (fun e u => u = t ∧ P e) F :=
    product.chain hstop binding?_of_sumOp?
  have relation : (relationOf p (n + 1)).Ends env s (fun e u => u = t ∧ P e) F := by
    refine sum.bind ?_
    rintro e u ⟨rfl, he⟩
    rw [ends_current_bind, TokenKind.op?_eq_none binding?_of_relationalOp? (by simp [hstop]),
      ends_pure]
    exact ⟨rfl, he⟩
  have disjunction : (disjunctionOf p (n + 1)).Ends env s (fun e u => u = t ∧ P e) F :=
    relation.chain hstop binding?_of_orOp?
  exact disjunction.chain hstop binding?_of_andOp?

/-- A primary without selectors and increments behind it. -/
theorem Ends.suffixedOf {p : Parser Expr} {n : Nat}
    (h : (primaryOf p (n + 1)).Ends env s (fun e u => u = t ∧ P e) F) :
    (suffixedOf p (n + 1)).Ends env s (fun e u => u = t ∧ P e) F := by
  have stops {k : Nat} : t.reader.current.kind.binding? ≠ some k := by simp [hstop]
  refine h.bind ?_
  rintro e u ⟨rfl, he⟩
  refine Ends.bind (Q := fun a v => v = u ∧ a = e) ((ends_selectors stops).2 ⟨rfl, rfl⟩) ?_
  rintro a v ⟨rfl, rfl⟩
  rw [ends_current_bind, TokenKind.op?_eq_none binding?_of_direction? stops, ends_pure]
  exact ⟨rfl, he⟩

end

section

variable (hkind : s.reader.current.kind = .integer) (hnext : advance env s = .ok () t)

include hkind hnext

/-- What the parser makes of an integer token: the literal of its value, and the next token is the
current one, or the failure to read the value. -/
theorem primaryOf_integer (p : Parser Expr) (n : Nat) :
    (primaryOf p n).Ends env s
      (fun e u => u = t ∧ ∃ v, s.reader.current.integerValue = .ok v ∧
        e = .integer v s.reader.current.line)
      (fun f => ∃ x, s.reader.current.integerValue = .error x ∧
        f = .notAnInteger s.reader.current.value x) := by
  unfold primaryOf
  rw [ends_token_bind]
  dsimp only
  rw [hkind]
  cases hvalue : s.reader.current.integerValue with
  | error x => exact (ends_throw _ _).2 ⟨x, rfl, rfl⟩
  | ok v => exact (ends_bind_of advance hnext _).2 ((ends_pure _ _).2 ⟨rfl, v, rfl, rfl⟩)

/-- With no operator behind it, the token is the whole expression. -/
theorem expression_integer (hstop : t.reader.current.kind.binding? = none) (n : Nat) :
    (expression (n + 2)).Ends env s
      (fun e u => u = t ∧ ∃ v, s.reader.current.integerValue = .ok v ∧
        e = .integer v s.reader.current.line)
      (fun f => ∃ x, s.reader.current.integerValue = .error x ∧
        f = .notAnInteger s.reader.current.value x) := by
  refine Ends.expressionOf hstop ?_ (n + 1)
  unfold unary
  rw [ends_line_bind, ends_current_bind, hkind]
  exact (primaryOf_integer hkind hnext _ _).suffixedOf hstop

/-- A `return` in front of it and a semicolon behind it make a statement. -/
theorem returnStatement_integer {r u : ParseState} (hfirst : advance env r = .ok () s)
    (hsemicolon : t.reader.current.kind = .mark .semicolon) (hlast : advance env t = .ok () u)
    (n : Nat) :
    (returnStatement (n + 2)).Ends env r
      (fun st w => w = u ∧ ∃ v, s.reader.current.integerValue = .ok v ∧
        st = .return (some (.integer v s.reader.current.line)) r.reader.current.line)
      (fun f => ∃ x, s.reader.current.integerValue = .error x ∧
        f = .notAnInteger s.reader.current.value x) := by
  have closes : (expect .semicolon).Ends env t (fun _ w => w = u)
      (fun f => ∃ x, s.reader.current.integerValue = .error x ∧
        f = .notAnInteger s.reader.current.value x) := by
    unfold expect
    rw [ends_atMark_bind, if_pos (beq_of_eq hsemicolon)]
    exact ends_iff.2 ⟨fun _ _ h => by cases hlast.symm.trans h; rfl,
      fun _ _ h => by cases hlast.symm.trans h⟩
  unfold returnStatement
  rw [ends_line_bind, ends_bind_of advance hfirst, ends_atMark_bind, hkind]
  refine (expression_integer hkind hnext (by rw [hsemicolon]; rfl) n).bind ?_
  rintro e w ⟨rfl, v, hv, rfl⟩
  refine closes.bind ?_
  rintro - w rfl
  exact (ends_pure _ _).2 ⟨rfl, v, hv, rfl⟩

end

/-- Behind a token that was not looked beyond stands the next one of the stream. -/
theorem advance_of_next {u : Token} {rest : TokenStream}
    (hcurrent : s.reader.current.kind ≠ .endOfSource) (hahead : s.reader.ahead = none)
    (hnext : s.reader.stream.next = (.ok u, rest)) :
    advance env s = .ok () { s with reader := ⟨u, none, rest⟩ } := by
  unfold advance ofReader Reader.advance Reader.pull
  rw [if_neg hcurrent, hahead, hnext]

/-- A program of three tokens that returns an integer. -/
theorem program_returning (load : String → Parser (List Stmt)) {first number last : Token}
    (hfirst : first.kind = .keyword .return) (hnumber : number.kind = .integer)
    (hlast : last.kind = .mark .semicolon) (stop : Position) :
    (program load).Ends env ⟨⟨first, none, [.ok number, .ok last], stop⟩, 0, []⟩
      (fun ss _ => ∃ v, number.integerValue = .ok v ∧
        ss = [.return (some (.integer v number.line)) first.line])
      (fun f => ∃ x, number.integerValue = .error x ∧ f = .notAnInteger number.value x) := by
  let start : ParseState := ⟨⟨first, none, [.ok number, .ok last], stop⟩, 0, []⟩
  let behindFirst : ParseState := ⟨⟨number, none, [.ok last], stop⟩, 0, []⟩
  let behindNumber : ParseState := ⟨⟨last, none, [], stop⟩, 0, []⟩
  have onto : advance env start = .ok () behindFirst :=
    advance_of_next (by simp [start, hfirst]) rfl rfl
  have across : advance env behindFirst = .ok () behindNumber :=
    advance_of_next (by simp [behindFirst, hnumber]) rfl rfl
  have behind : advance env behindNumber = .ok () ⟨⟨.endAt stop, none, [], stop⟩, 0, []⟩ :=
    advance_of_next (by simp [behindNumber, hlast]) rfl rfl
  have value := returnStatement_integer hnumber across onto hlast behind 2
  refine (Ends.program (R := fun st => ∃ v, number.integerValue = .ok v ∧
    st = some (.return (some (.integer v number.line)) first.line)) (by rw [hfirst]; rfl) ?_).imp ?_
  · unfold statement statementOf
    rw [ends_current_bind, hfirst]
    refine value.bind ?_
    rintro st t ⟨rfl, v, hv, rfl⟩
    exact (ends_pure _ _).2 ⟨rfl, v, hv, rfl⟩
  · rintro ss - ⟨st, ⟨v, hv, rfl⟩, rfl⟩
    exact ⟨v, hv, rfl⟩

end Parser

/-- A text that returns an integer is the script with its literal, or not a script because of the
failure to read its value. -/
theorem parseText_returning_integer {text : String} (h : TokenKind.Shape .integer text.toList)
    (sources : Sources) (unit : Nat) (path : Option String) {value : Except NumeralFault Int}
    (hvalue : ∀ t : Token, t.value = text → t.integerValue = value) :
    (parseText sources unit path s!"return {text};").result =
      (value.map fun v => ⟨[.return (some (.integer v 1)) 1]⟩).mapError (.notAnInteger text) := by
  obtain ⟨p, q, hline, hsteps⟩ := steps_returning_integer h
  have hopen : Parser.openText path s!"return {text};".toList =
      .ok ⟨⟨.keyword .return, "return", .start⟩, none,
        [.ok ⟨.integer, text, p⟩, .ok ⟨.mark .semicolon, ";", q⟩],
        (TokenStream.ofString s!"return {text};").stop⟩ := by
    unfold Parser.openText Reader.ofStream TokenStream.next
    rw [show (TokenStream.ofChars s!"return {text};".toList).steps = _ from hsteps]
    rfl
  unfold parseText Parser.run
  dsimp only [bind, Except.bind]
  rw [hopen]
  dsimp only
  split
  · next ss t hprogram =>
    obtain ⟨v, hv, rfl⟩ := (Parser.program_returning _ rfl rfl rfl _).ok hprogram
    rw [hvalue _ rfl] at hv
    subst hv
    dsimp only [Token.line]
    rw [hline]
    rfl
  · next f t hprogram =>
    obtain ⟨x, hx, rfl⟩ := (Parser.program_returning _ rfl rfl rfl _).error hprogram
    rw [hvalue _ rfl] at hx
    subst hx
    rfl

/-! ## What a text is read as -/

/-- How a text is read that stands for an integer, or for none because of a fault. -/
structure IsReadAs (text : String) (value : Except NumeralFault Int) : Prop where
  /-- Alone it is one token. -/
  token : IsIntegerToken text
  /-- Where the parser comes to the token and no operator follows, it makes the literal of it and
  goes on behind it, or fails with the fault. -/
  literal : ∀ (env : ParseEnv) (s t : ParseState) (n : Nat), s.reader.current.kind = .integer →
    s.reader.current.value = text → Parser.advance env s = .ok () t →
    t.reader.current.kind.binding? = none → (Parser.expression (n + 2)).Ends env s
      (fun e u => u = t ∧ ∃ v, value = .ok v ∧ e = .integer v s.reader.current.line)
      (fun f => ∃ x, value = .error x ∧ f = .notAnInteger text x)
  /-- So it does with a text that returns it. -/
  returned : ∀ (sources : Sources) (unit : Nat) (path : Option String),
    (parseText sources unit path s!"return {text};").result =
      (value.map fun v => ⟨[.return (some (.integer v 1)) 1]⟩).mapError (.notAnInteger text)

/-- The characters decide that it is a token, and the value of the token is what it is read as. -/
theorem IsReadAs.of_shape {text : String} {value : Except NumeralFault Int}
    (h : TokenKind.Shape .integer text.toList)
    (hvalue : ∀ t : Token, t.value = text → t.integerValue = value) : IsReadAs text value where
  token := isIntegerToken_of_shape h
  literal env s t n hkind htext hnext hstop := by
    have hread := Parser.expression_integer hkind hnext hstop n
    rwa [hvalue _ htext, htext] at hread
  returned sources unit path := parseText_returning_integer h sources unit path hvalue

/-- A text is read in one way only. -/
theorem IsReadAs.unique {text : String} {value other : Except NumeralFault Int}
    (h : IsReadAs text value) (h' : IsReadAs text other) : value = other := by
  have heq := (h.returned ⟨⟨[], "/"⟩, [], []⟩ 0 none).symm.trans (h'.returned _ _ _)
  cases value <;> cases other <;> cases heq <;> rfl

end CellScript
