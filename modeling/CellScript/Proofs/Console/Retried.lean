import Mathlib
import CellScript.Console.Repl
import CellScript.Proofs.Console.Dialogue
import CellScript.Proofs.Parse.Clipped
import CellScript.Proofs.Parse.Numbers

/-!
# Inputs that are read again

An input that is no script is read once more, as the value of a `return`. That is meant for bare
expressions, but the input is only put between the word and a semicolon, so it can also end the
`return` itself: then statements follow that are parsed and never run. This does not happen exactly
if the input has no semicolon of its own (`Repl.retry_reads_expression_iff`).

* `BareExpression`: a text that is one expression;
* `BareExpression.noSemicolon`: it has no semicolon;
* `Parser.program_whole`: what a `return` around a text without semicolons is read as.
-/

namespace CellScript

/-- The text is one expression: from its first token on an expression can be read, wherever the
parser stands, and then the text has ended. -/
def BareExpression (source : String) (e : Expr) : Prop :=
  ∃ r n s, Parser.openText none source.toList = .ok r ∧
    (∀ env, Parser.expression n env ⟨r, 0, []⟩ = .ok e s) ∧ s.reader.current.kind = .endOfSource

/-- The reader at the first token of a text comes from its stream. -/
theorem Parser.openText_eq_ok {path : Option String} {text : List Char} {r : Reader} :
    openText path text = .ok r ↔
      (TokenStream.ofChars text).next = (.ok r.current, r.stream) ∧ r.ahead = none := by
  unfold openText Reader.ofStream
  cases (TokenStream.ofChars text).next with
  | mk step rest =>
    cases step with
    | ok t =>
      constructor
      · intro h
        cases h
        exact ⟨rfl, rfl⟩
      · rintro ⟨hnext, hahead⟩
        obtain ⟨current, ahead, stream⟩ := r
        cases hnext
        cases hahead
        rfl
    | error e => simp

/-- A bare expression has no semicolon. -/
theorem BareExpression.noSemicolon {source : String} {e : Expr} (h : BareExpression source e) :
    (TokenStream.ofString source).NoSemicolon := by
  obtain ⟨r, n, s, hopen, hread, hend⟩ := h
  intro t ht hkind
  -- The parser cannot tell the first semicolon from an end, so it would have stopped there.
  obtain ⟨v, rest, steps', hv, hsteps⟩ := exists_sameUntil
    (fun t ht hend => (TokenStream.shape_of_mem ht (by rw [hend]; nofun)).ne_endOfSource hend)
    ⟨t, ht, hkind⟩
  obtain ⟨hnext, hahead⟩ := Parser.openText_eq_ok.1 hopen
  obtain ⟨current, ahead, stream⟩ := r
  cases hahead
  have hsteps : SameUntil _ _ (TokenStream.mk steps' .start).steps := hsteps
  obtain ⟨u, rest', -, hclipped⟩ := Reader.Clipped.of_next hsteps hnext
  have hstop : IsStop (.ok v :: rest) := by
    intro step hstep
    cases hstep
    exact ⟨v, rfl, hv⟩
  let env : ParseEnv := ⟨⟨⟨[], "/"⟩, [], []⟩, none, [], 0, false⟩
  have hmatches := Parser.expression_clips hstop n env ⟨⟨current, none, stream⟩, 0, []⟩
    ⟨⟨u, none, rest'⟩, 0, []⟩ hclipped
  obtain ⟨s', -, hs⟩ := Parser.Ends.ok hmatches (hread env)
  exact hs.ne_endOfSource hv hend

namespace Parser

/-- A source that begins with its end is an empty script. -/
theorem parseText_of_end {sources : Sources} {unit : Nat} {path : Option String} {text : String}
    {r : Reader} (hopen : openText path text.toList = .ok r)
    (hend : r.current.kind = .endOfSource) :
    (parseText sources unit path text).result = .ok ⟨[]⟩ := by
  have hprogram : ∀ load env, (program load).Ends env ⟨r, 0, []⟩ (fun ss _ => ss = [])
      fun _ => False := by
    intro load env
    unfold program
    rw [ends_tokensLeft_bind]
    refine Ends.bind (Q := fun ss t => ss = [] ∧ t.reader = r) ?_ fun ss t ⟨hss, ht⟩ => ?_
    · unfold statementsOf
      rw [ends_current_bind]
      simp [hend, startsStatement]
    · rw [ends_current_bind, ht]
      simp [hend, hss]
  unfold parseText run
  dsimp only [bind, Except.bind]
  rw [hopen]
  dsimp only
  split
  · next ss t hp => rw [(hprogram _ _).ok hp]
  · next f t hp => exact ((hprogram _ _).error hp).elim

section

variable {source : String} {env : ParseEnv} {s : ParseState} {stop : List (Except LexError Token)}

/-- Behind a token in front of the text stands the first token of the text. -/
theorem advance_onto (hahead : s.reader.ahead = none)
    (hkind : s.reader.current.kind ≠ .endOfSource)
    (hsteps : SameUntil stop s.reader.stream.steps (TokenStream.ofString source).steps) :
    advance.Ends env s (fun _ t => ∃ r, openText none source.toList = .ok r ∧
      t.reader.Clipped stop r) fun _ => True := by
  constructor
  unfold advance ofReader Reader.advance Reader.pull
  rw [if_neg hkind, hahead]
  dsimp only
  cases hnext : s.reader.stream.next with
  | mk step rest =>
    cases step with
    | error e => trivial
    | ok t =>
      obtain ⟨u, rest', hnext', hclipped⟩ := Reader.Clipped.of_next hsteps hnext
      exact ⟨⟨u, none, rest'⟩, openText_eq_ok.2 ⟨hnext', rfl⟩, hclipped⟩

/-- Behind an expression, the semicolon is the last token. -/
theorem expect_closing (hclosing : IsClosing stop) {r : Reader} (h : s.reader.Clipped stop r) :
    (expect .semicolon).Ends env s (fun _ t => r.current.kind = .endOfSource ∧
      t.reader.current.kind = .endOfSource) fun _ => True := by
  unfold expect
  rw [ends_atMark_bind]
  split
  · next hsemicolon =>
    have hkind := eq_of_beq hsemicolon
    obtain ⟨hstop, hahead, hend⟩ := h.at_semicolon hkind
    have hrest : s.reader.stream.steps = [] := by
      rcases hclosing with hnil | ⟨t, -, hone⟩
      · rw [hnil] at hstop
        cases hstop
      · rw [hone] at hstop
        exact (List.cons.inj hstop).2.symm
    constructor
    unfold advance ofReader Reader.advance Reader.pull TokenStream.next
    rw [if_neg (by rw [hkind]; nofun), hahead, hrest]
    exact ⟨hend, rfl⟩
  · exact (ends_fail _ _).2 trivial

/-! ### A `return` in front of a text that is not empty -/

variable (hahead : s.reader.ahead = none) (hkind : s.reader.current.kind = .keyword .return)
  (hclosing : IsClosing stop)
  (hsteps : SameUntil stop s.reader.stream.steps (TokenStream.ofString source).steps)
  (hsome : ∀ r, openText none source.toList = .ok r → r.current.kind ≠ .endOfSource)

include hahead hkind hclosing hsteps hsome

/-- With nothing or a semicolon behind the text, the statement takes the text as its value, if it
can be read. -/
theorem returnStatement_whole (n : Nat) :
    (returnStatement n).Ends env s (fun st t => ∃ v, BareExpression source v ∧
      st = .return (some v.asOperand) s.reader.current.line ∧
      t.reader.current.kind = .endOfSource) fun _ => True := by
  have hstop := hclosing.isStop
  unfold returnStatement
  rw [ends_line_bind]
  refine (advance_onto hahead (by rw [hkind]; nofun) hsteps).bind fun _ t ⟨r, hopen, ht⟩ => ?_
  have hvalue : (expression n).Ends env t (fun e u => ∃ u' : ParseState,
      (∀ env', expression n env' ⟨r, 0, []⟩ = .ok e u') ∧ u.reader.Clipped stop u'.reader)
      fun _ => True :=
    expression_clips hstop n env t ⟨r, 0, []⟩ ht
  -- The text has a first token, so the semicolon behind it does not follow at once.
  have hnone : (t.reader.current.kind == .mark .semicolon) = false := by
    rcases ht.current hstop with ⟨-, hend⟩ | ⟨hno, -⟩
    · exact absurd hend (hsome r hopen)
    · exact (Bool.or_eq_false_iff.1 hno).1
  rw [ends_atMark_bind, hnone]
  exact hvalue.bind fun e u ⟨u', he, hu⟩ =>
    (expect_closing hclosing hu).bind fun _ w ⟨hend, hw⟩ =>
      (ends_pure _ _).2 ⟨e, ⟨r, n, u', hopen, he, hend⟩, rfl, hw⟩

/-- A program that begins with such a `return` has no statement behind it. -/
theorem program_whole (load : String → Parser (List Stmt)) :
    (program load).Ends env s (fun ss _ => ∃ v, BareExpression source v ∧
      ss = [.return (some v.asOperand) s.reader.current.line]) fun _ => True := by
  refine (Ends.program (R := fun st => ∃ v, BareExpression source v ∧
    st = some (.return (some v.asOperand) s.reader.current.line)) (by rw [hkind]; rfl) ?_).imp ?_
  · unfold statement statementOf
    rw [ends_current_bind, hkind]
    refine (returnStatement_whole hahead hkind hclosing hsteps hsome _).bind ?_
    rintro st t ⟨v, hv, rfl, ht⟩
    exact (ends_pure _ _).2 ⟨ht, v, hv, rfl⟩
  · rintro ss - ⟨st, ⟨v, hv, rfl⟩, rfl⟩
    exact ⟨v, hv, rfl⟩

end

end Parser

namespace Repl

/-- What a `return` around a text that has tokens, but no semicolon, is read as. -/
theorem parseText_returning {sources : Sources} {unit : Nat} {path : Option String}
    {source : String} {script : Script} (hfree : (TokenStream.ofString source).NoSemicolon)
    (hsome : ∀ r, Parser.openText none source.toList = .ok r → r.current.kind ≠ .endOfSource)
    (h : (parseText sources unit path (returning source)).result = .ok script) :
    ∃ v, BareExpression source v ∧ script.statements = [.return (some v.asOperand) 1] := by
  have hsteps := TokenStream.steps_returning (source.toList ++ [';'])
  obtain ⟨stop, hclosing, hsame⟩ := TokenStream.sameUntil_concat
    (n := (source.toList ++ [';']).length + 5) (m := source.toList.length)
    (p := Position.start.advance "return ".toList) (q := .start) (by simp; omega)
    (Nat.le_refl _) rfl hfree
  unfold parseText Parser.run at h
  dsimp only [bind, Except.bind] at h
  rw [returning, TokenStream.toList_returning] at h
  split at h
  · cases h
  · next r hopen =>
    obtain ⟨hnext, hahead⟩ := Parser.openText_eq_ok.1 hopen
    rw [TokenStream.next, hsteps] at hnext
    obtain ⟨hcurrent, hstream⟩ := Prod.mk.inj hnext
    have hcurrent := Except.ok.inj hcurrent
    split at h
    · next ss t hprogram =>
      cases h
      have hread := (Parser.program_whole (s := ⟨r, 0, []⟩) hahead (by rw [← hcurrent]) hclosing
        (by rw [← hstream]; exact hsame) hsome _).ok hprogram
      rwa [← hcurrent] at hread
    · cases h

/-- Steps for the entries of a list that only run something. -/
theorem OnlyRuns.forIn {α : Type} {f : α → SessionM PUnit} (h : ∀ a, OnlyRuns (f a)) (xs : List α) :
    OnlyRuns (forIn xs PUnit.unit fun a _ => f a >>= fun _ => Pure.pure (.yield PUnit.unit)) := by
  induction xs with
  | nil => exact .pure _
  | cons a xs ih =>
    simp only [List.forIn_cons, bind_assoc, pure_bind]
    exact (h a).bind fun _ => ih

/-- Taking the outcome of a parse comes to its result, unless something fails that is run. -/
theorem accept_eq (o : ParseOutcome) (s : Session) :
    (∃ f t, Session.accept o s = .error (.run f) t) ∨
      ∃ t, Session.accept o s = match o.result with
        | .ok script => .ok script t
        | .error f => .error (.parse f) t := by
  have hnotices := OnlyRuns.forIn
    (fun path => OnlyRuns.lift (Exec.trace "velox.parser" (includeNotice path))) o.included
  unfold Session.accept
  change (∃ f t, EStateM.bind (forIn o.included PUnit.unit _) _ { s with unit := s.unit + 1 } = _) ∨
    ∃ t, EStateM.bind (forIn o.included PUnit.unit _) _ { s with unit := s.unit + 1 } = _
  unfold EStateM.bind
  split
  · next a t hnotice =>
    refine .inr ⟨t, ?_⟩
    cases o.result <;> rfl
  · next f t hnotice =>
    obtain ⟨g, rfl⟩ := hnotices _ _ _ hnotice
    exact .inl ⟨g, t, rfl⟩

theorem run_eq (host : Host) (source : String) (path : Option String) (s : Session) :
    Session.run host source path s =
      match Session.parse source path s with
      | .ok script t => Session.execute host script t
      | .error f t => .error f t := by
  change EStateM.bind (Session.parse source path) (Session.execute host) s = _
  unfold EStateM.bind
  cases Session.parse source path s <;> rfl

theorem result_of_parse_error {source : String} {path : Option String} {s t : Session}
    {f : ParseFailure} (h : Session.parse source path s = .error (.parse f) t) :
    (parseText s.sources s.unit path source).result = .error f := by
  change Session.accept (parseText s.sources s.unit path source) s = _ at h
  rcases accept_eq (parseText s.sources s.unit path source) s with ⟨g, u, hrun⟩ | ⟨u, hresult⟩
  · rw [hrun] at h
    cases h
  · rw [hresult] at h
    split at h
    · cases h
    · next hf =>
      cases h
      exact hf

theorem result_of_parse_ok {source : String} {path : Option String} {s t : Session}
    {script : Script} (h : Session.parse source path s = .ok script t) :
    (parseText s.sources s.unit path source).result = .ok script := by
  change Session.accept (parseText s.sources s.unit path source) s = _ at h
  rcases accept_eq (parseText s.sources s.unit path source) s with ⟨g, u, hrun⟩ | ⟨u, hresult⟩
  · rw [hrun] at h
    cases h
  · rw [hresult] at h
    split at h
    · next hscript =>
      cases h
      exact hscript
    · cases h

/-- An input that is no script, but becomes one as the value of a `return`, is run as that script.
It is a single statement, and its value takes up the whole input, exactly if no token of the input
is a semicolon. -/
theorem retry_reads_expression_iff (host : Host) {source : String} {script : Script}
    {e : ParseError} {s s₁ s₂ : Session}
    (hfirst : Session.parse source (some "<repl>") s = .error (.parse (.malformed e)) s₁)
    (hopen : endsStatement source = false)
    (hretry : Session.parse (returning source) (some "<repl>") s₁ = .ok script s₂) :
    evaluate host source s = Session.execute host script s₂ ∧
      ((∃ v, BareExpression source v ∧ script.statements = [.return (some v.asOperand) 1]) ↔
        (TokenStream.ofString source).NoSemicolon) := by
  refine ⟨?_, fun ⟨v, hv, _⟩ => hv.noSemicolon, fun hfree => ?_⟩
  · unfold evaluate
    rw [run_eq, hfirst]
    dsimp only
    rw [hopen, run_eq, hretry]
    dsimp only
    cases hrun : Session.execute host script s₂ with
    | ok c t => rfl
    | error f t =>
      -- Only a parse error would bring the first failure back.
      obtain ⟨g, rfl⟩ := OnlyRuns.lift _ _ _ _ hrun
      rfl
  · have hmalformed := result_of_parse_error hfirst
    refine parseText_returning hfree (fun r hr hend => ?_) (result_of_parse_ok hretry)
    rw [Parser.parseText_of_end (Parser.openText_eq_ok.2 (Parser.openText_eq_ok.1 hr)) hend]
      at hmalformed
    cases hmalformed

/-- The second statement of the input is parsed, and skipped in silence. -/
theorem retry_skips_statement :
    let source := "1; x = 2"
    let s : Session := ⟨State.initial 200, ⟨⟨[], "/"⟩, [], []⟩, true, 0⟩
    let skipped : Stmt := .assign (.name "x" .location 1) (.integer 2 1) 1
    let script : Script := ⟨[.return (some (.integer 1 1)) 1, skipped]⟩
    Session.parse source (some "<repl>") s =
        .error (.parse (.malformed ⟨.expected ";", 1, some "<repl>"⟩)) { s with unit := 1 } ∧
      endsStatement source = false ∧
      Session.parse (returning source) (some "<repl>") { s with unit := 1 } =
        .ok script { s with unit := 2 } ∧
      ¬ (∃ v, BareExpression source v ∧ script.statements = [.return (some v.asOperand) 1]) ∧
      run (fun _ => return none) false false ⟨.ofFiles "/" [], [], []⟩ [some source] =
        (⟨"Velox REPL. Type 'exit' or 'quit' to leave.\nvelox> 1\nvelox> \nExiting Velox REPL.\n",
          ""⟩, .exit 0) := by
  intro source s skipped script
  refine ⟨by cbv, by decide +kernel, by cbv, ?_, by decide +kernel⟩
  rintro ⟨v, -, hscript⟩
  cases (List.cons.inj hscript).2

/-- A sum over two lines. -/
theorem retry_reads_expression_sum :
    let source := "1 +\n2"
    let s : Session := ⟨State.initial 200, ⟨⟨[], "/"⟩, [], []⟩, true, 0⟩
    let script : Script := ⟨[.return (some (.arithmetic .add (.integer 1 1) (.integer 2 2) 1)) 1]⟩
    Session.parse source (some "<repl>") s =
        .error (.parse (.malformed ⟨.expected ";", 2, some "<repl>"⟩)) { s with unit := 1 } ∧
      endsStatement source = false ∧
      Session.parse (returning source) (some "<repl>") { s with unit := 1 } =
        .ok script { s with unit := 2 } ∧
      (TokenStream.ofString source).NoSemicolon ∧
      ∃ v, BareExpression source v ∧ script.statements = [.return (some v.asOperand) 1] := by
  intro source s script
  have hfirst : Session.parse source (some "<repl>") s =
    .error (.parse (.malformed ⟨.expected ";", 2, some "<repl>"⟩)) { s with unit := 1 } := by cbv
  have hopen : endsStatement source = false := by decide +kernel
  have hretry : Session.parse (returning source) (some "<repl>") { s with unit := 1 } =
    .ok script { s with unit := 2 } := by cbv
  have hfree : (TokenStream.ofString source).NoSemicolon := by decide +kernel
  exact ⟨hfirst, hopen, hretry, hfree,
    (retry_reads_expression_iff (fun _ => return none) hfirst hopen hretry).2.2 hfree⟩

end Repl

end CellScript
