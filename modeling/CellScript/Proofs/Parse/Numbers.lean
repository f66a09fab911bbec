import CellScript.Proofs.Parse.Retrace
import CellScript.Proofs.Parse.Termination
import CellScript.Proofs.Print.Parsed
import CellScript.Proofs.Token.Shape

/-!
# Where malformed sources are no parse errors

A source without includes leads to a script, to an error that points into the source, or the parser
comes upon a number whose text has no value, which is a failure of another kind. A number has no
value if a digit in it is not decimal, like a superscript, or if it has too many digits.

* `Token.HasValue`: the numbers with a value, by their characters, and `fault?_eq_none_iff`;
* `Parser.run_retraces`: what becomes of a source, and of the source cut at a number;
* `malformed_source_is_parse_error_iff`: which sources lead to which of the three.
-/

namespace CellScript

/-! ## Numbers with a value -/

/-- The text of a number stands for a value: all its digits are decimal, and those of an integer are
not too many. Hexadecimal ones always have a value. -/
def Token.HasValue (t : Token) : Prop :=
  match t.kind with
  | .integer =>
    (∃ x ds, (x = 'x' ∨ x = 'X') ∧ t.value.toList = '0' :: x :: ds) ∨
      (∀ c ∈ t.value.toList, isDecimal c = true) ∧ t.value.toList.length ≤ maxDigits
  | .real => ∀ c ∈ t.value.toList, c ≠ '.' → isDecimal c = true
  | _ => True

namespace Token

variable {t : Token}

theorem fault?_of_decimal (hk : t.kind = .integer) (hne : t.value.toList ≠ [])
    (hds : ∀ c ∈ t.value.toList, isDigit c = true) :
    t.fault? = none ↔
      (∀ c ∈ t.value.toList, isDecimal c = true) ∧ t.value.toList.length ≤ maxDigits := by
  rw [← exists_readInteger hds hne]
  simp only [fault?, hk, integerValue_decimal hds]
  cases readInteger t.value.toList <;> simp

theorem fault?_of_real {whole part : List Char} (hk : t.kind = .real)
    (htext : t.value.toList = whole ++ '.' :: part) (hne : whole ++ part ≠ [])
    (hds : ∀ c ∈ whole ++ part, isDigit c = true) :
    t.fault? = none ↔ ∀ c ∈ whole ++ part, isDecimal c = true := by
  have hvalue : t.realValue?.isSome = (whole ++ part).all isDecimal := by
    rw [realValue?, htext, readReal?_isSome hds hne]
  rw [← List.all_eq_true, ← hvalue]
  simp only [fault?, hk]
  cases t.realValue? <;> simp

/-- For a token that is written by the rules, the characters tell whether it has a value. -/
theorem fault?_eq_none_iff (h : t.kind ≠ .string → t.kind.Shape t.value.toList) :
    t.fault? = none ↔ t.HasValue := by
  unfold HasValue
  split
  · next hk =>
    have hshape := h (by simp [hk])
    rw [hk] at hshape
    generalize htext : t.value.toList = text at hshape
    cases hshape with
    | decimal hne hds =>
      subst htext
      rw [fault?_of_decimal hk hne hds]
      refine ⟨.inr, fun h => h.resolve_left ?_⟩
      -- The letter of a hexadecimal number is no digit.
      rintro ⟨x, ds, hx, htext⟩
      have hdigit := hds x (by simp [htext])
      rcases hx with rfl | rfl <;> exact ne_of_isDigit hdigit (by decide) rfl
    | hex hx hne hds =>
      refine iff_of_true ?_ (.inl ⟨_, _, hx, rfl⟩)
      simp only [fault?, hk, integerValue_hex hx htext hne hds]
  · next hk =>
    have hshape := h (by simp [hk])
    rw [hk] at hshape
    generalize htext : t.value.toList = text at hshape
    cases hshape with
    | @real whole part hne hds =>
      rw [fault?_of_real hk htext hne hds]
      have hpoint : ∀ c ∈ whole ++ part, c ≠ '.' := fun c hc =>
        ne_of_isDigit (hds c hc) (by decide)
      constructor
      · intro hdecimal c hc hother
        rw [List.mem_append, List.mem_cons] at hc
        rcases hc with hc | hc | hc
        · exact hdecimal c (List.mem_append_left _ hc)
        · exact absurd hc hother
        · exact hdecimal c (List.mem_append_right _ hc)
      · intro hdecimal c hc
        refine hdecimal c ?_ (hpoint c hc)
        rw [List.mem_append, List.mem_cons]
        rw [List.mem_append] at hc
        exact hc.imp_right .inr
  · next hint hreal => exact iff_of_true (fault?_of_kind hint hreal) trivial

end Token

/-- A token of a text is written by the rules. -/
theorem TokenStream.shape_of_mem {cs : List Char} {t : Token} (h : .ok t ∈ (ofChars cs).steps)
    (hk : t.kind ≠ .string) : t.kind.Shape t.value.toList := by
  obtain ⟨c, rest, hpiece⟩ := exists_scan h
  have hright := Lexer.scan_right c rest
  unfold Lexer.Scan.Right at hright
  rw [hpiece] at hright
  rw [hright.plain hk, String.toList_ofList]
  exact hright.shape

/-! ## Sources that are cut -/

namespace Parser

/-- Parse the tokens of a stream. -/
def runStream (sources : Sources) (unit : Nat) (path : Option String) (s : TokenStream) :
    Except ParseFailure Script :=
  match Reader.ofStream s with
  | .error e => .error (.malformed ⟨.lexical e.fault, e.line, path⟩)
  | .ok r =>
    match program (load (includeDepth sources)) ⟨sources, path, [], unit, false⟩ ⟨r, 0, []⟩ with
    | .ok ss _ => .ok ⟨ss⟩
    | .error f _ => .error f

/-- The parser comes upon the first number without a value and takes it: if the number is `0` and
nothing but a fault stands behind it, that fault is what comes of the source, whichever it is. -/
def TakesValueless (sources : Sources) (unit : Nat) (path : Option String) (s : TokenStream) :
    Prop :=
  s.fault?.isSome = true ∧ ∀ e : LexError,
    runStream sources unit path (s.cut e) = .error (.malformed ⟨.lexical e.fault, e.line, path⟩)

variable {sources : Sources} {unit : Nat} {path : Option String}

theorem parseText_result (text : String) :
    (parseText sources unit path text).result =
      runStream sources unit path (.ofString text) := by
  have hopen : ((.ok text.toList : Except ParseFailure (List Char)) >>= openText path) =
      openText path text.toList := rfl
  unfold parseText run runStream
  rw [hopen, openText, TokenStream.ofString]
  cases Reader.ofStream (.ofChars text.toList) with
  | error e => rfl
  | ok r =>
    dsimp only
    split <;> simp only [*]

/-- The reader of a stream and those of the cut ones. -/
theorem ofStream_cut {s : TokenStream} (hfree : IncludeFree s.tokens.1) :
    (∃ x, Reader.ofStream s = .error x ∧ ∀ e, Reader.ofStream (s.cut e) = .error x) ∨
    ∃ r, Reader.ofStream s = .ok r ∧ r.ahead = none ∧ r.IncludeFree ∧ r.fault? = s.fault? ∧
      ∀ e, Reader.ofStream (s.cut e) = .ok (r.cut e) := by
  unfold Reader.ofStream
  rcases s.next_cut with ⟨x, rest, hnext, hcut⟩ | ⟨t, rest, hnext, hfault, hcut⟩
  · rw [hnext]
    refine .inl ⟨x, rfl, fun e => ?_⟩
    obtain ⟨rest', hnext'⟩ := hcut e
    rw [hnext']
  · rw [hnext]
    refine .inr ⟨⟨t, none, rest⟩, rfl, rfl, ?_, by simp [hfault], fun e => ?_⟩
    · have hfirst : IncludeFree (Token.endAt s.stop :: s.tokens.1) :=
        hfree.cons fun _ _ => nofun
      exact (TokenStream.includeFree_next hnext hfirst).tail
    · rw [hcut e]
      by_cases ht : t.fault?.isSome = true <;> simp [Reader.cut, ht]

/-- What stands for a number without a value is no error that points into the source. -/
theorem fault?_ne_malformed (s : TokenStream) (x : ParseError) :
    s.fault? ≠ some (.malformed x) := by
  intro h
  obtain ⟨step, -, hstep⟩ := List.exists_of_findSome?_eq_some h
  cases step with
  | error e => cases hstep
  | ok t =>
    change t.fault? = _ at hstep
    unfold Token.fault? at hstep
    split at hstep
    · split at hstep <;> cases hstep
    · split at hstep <;> cases hstep
    · cases hstep

/-- What a stream without includes leads to, and what the cut ones lead to. -/
theorem runStream_cut (s : TokenStream) (hfree : IncludeFree s.tokens.1) :
    (∃ script, runStream sources unit path s = .ok script ∧
      ∀ e, runStream sources unit path (s.cut e) = .ok script) ∨
    (∃ x, runStream sources unit path s = .error (.malformed x) ∧
      ∀ e, runStream sources unit path (s.cut e) = .error (.malformed x)) ∨
    ∃ f, s.fault? = some f ∧ runStream sources unit path s = .error f ∧
      ∀ e, runStream sources unit path (s.cut e) =
        .error (.malformed ⟨.lexical e.fault, e.line, path⟩) := by
  unfold runStream
  rcases ofStream_cut hfree with ⟨x, hr, hcut⟩ | ⟨r, hr, hahead, hrfree, hfault, hcut⟩
  · exact .inr (.inl ⟨⟨.lexical x.fault, x.line, path⟩, by simp only [hr], fun e => by
      simp only [hcut e]⟩)
  -- Where there are no includes, the parser that fails at one is followed by the real one.
  let noLoad : String → Parser (List Stmt) := fun _ => throw (.unreadable "" .notFound)
  have hload : Loads (fun env => env.including = []) [] noLoad :=
    ⟨fun _ h => h, fun _ _ h => h, fun _ _ _ _ _ _ _ => (ends_throw _ _).2 nofun⟩
  generalize henv : (⟨sources, path, [], unit, false⟩ : ParseEnv) = env
  have follows (c : Option LexError) := program_retraces (c := c) noLoad
    (load (includeDepth sources)) env ⟨r, 0, []⟩ hrfree
  simp only [hr, hcut]
  cases hout : program noLoad env ⟨r, 0, []⟩ with
  | ok ss t =>
    simp only [hout] at follows
    have hwhole := (follows none).2.2
    simp only [ParseState.cut_none] at hwhole
    refine .inl ⟨⟨ss⟩, by simp only [hwhole], fun e => ?_⟩
    have hpart := (follows (some e)).2.2
    simp only [ParseState.cut_some] at hpart
    simp only [hpart]
  | error f t =>
    have hbounded : f ≠ .outOfFuel :=
      (program_ends hload env ⟨r, 0, []⟩ (by rw [← henv]) hahead).error hout
    simp only [hout, hbounded, false_or, hfault] at follows
    by_cases hnumber : s.fault? = some f
    · have taken (c : Option LexError) : ∃ u, program (load (includeDepth sources)) env
          (ParseState.cut c ⟨r, 0, []⟩) = .error (atCut c env.path f) u := by
        rcases follows c with ⟨x, -, rfl, -⟩ | ⟨u, -, hu⟩
        · exact absurd hnumber (fault?_ne_malformed s x)
        · exact ⟨u, hu⟩
      refine .inr (.inr ⟨f, hnumber, ?_, fun e => ?_⟩)
      · obtain ⟨u, hu⟩ := taken none
        simp only [ParseState.cut_none] at hu
        simp only [hu, atCut_none]
      · obtain ⟨u, hu⟩ := taken (some e)
        simp only [ParseState.cut_some] at hu
        have hpath : env.path = path := by rw [← henv]
        simp only [hu, atCut_some, hpath]
    · have before (c : Option LexError) : ∃ x u, f = .malformed x ∧
          program (load (includeDepth sources)) env (ParseState.cut c ⟨r, 0, []⟩) = .error f u :=
        (follows c).resolve_right fun ⟨_, h, _⟩ => hnumber h
      obtain ⟨x, u, rfl, hu⟩ := before none
      simp only [ParseState.cut_none] at hu
      refine .inr (.inl ⟨x, by simp only [hu], fun e => ?_⟩)
      obtain ⟨y, v, -, hv⟩ := before (some e)
      simp only [ParseState.cut_some] at hv
      simp only [hv]

end Parser

/-- A text without includes leads to a script or to an error that points into it exactly if the
parser does not come upon a number without a value. If it does, the first such number is the failure
that the text leads to. -/
theorem malformed_source_is_parse_error_iff (sources : Sources) (unit : Nat)
    (path : Option String) (text : String)
    (hfree : IncludeFree (TokenStream.ofString text).tokens.1) :
    let s := TokenStream.ofString text
    let result := (parseText sources unit path text).result
    (((∃ script, result = .ok script) ∨ ∃ x, result = .error (.malformed x)) ↔
      ¬ Parser.TakesValueless sources unit path s) ∧
    (Parser.TakesValueless sources unit path s → ∃ f, s.fault? = some f ∧ result = .error f) ∧
    ∀ t, .ok t ∈ s.steps → (t.fault? = none ↔ t.HasValue) := by
  intro s result
  have hresult : result = Parser.runStream sources unit path s := Parser.parseText_result text
  rw [hresult]
  have values : ∀ t, .ok t ∈ s.steps → (t.fault? = none ↔ t.HasValue) := fun t ht =>
    Token.fault?_eq_none_iff (TokenStream.shape_of_mem ht)
  rcases @Parser.runStream_cut sources unit path s hfree with
    ⟨script, hrun, hcut⟩ | ⟨x, hrun, hcut⟩ | ⟨f, hfault, hrun, hcut⟩
  · have untaken : ¬ Parser.TakesValueless sources unit path s := fun ⟨_, h⟩ => by
      have htold := h ⟨.stringNotClosed, 0⟩
      rw [hcut] at htold
      cases htold
    exact ⟨iff_of_true (.inl ⟨script, hrun⟩) untaken, fun h => absurd h untaken, values⟩
  · have untaken : ¬ Parser.TakesValueless sources unit path s := fun ⟨_, h⟩ => by
      -- A fault on another line than the error is not told.
      have htold := h ⟨.stringNotClosed, x.line + 1⟩
      rw [hcut, Except.error.injEq, ParseFailure.malformed.injEq] at htold
      have hline := congrArg ParseError.line htold
      exact absurd hline (Nat.ne_of_lt (Nat.lt_succ_self _))
    exact ⟨iff_of_true (.inr ⟨x, hrun⟩) untaken, fun h => absurd h untaken, values⟩
  · have taken : Parser.TakesValueless sources unit path s := ⟨by simp [hfault], hcut⟩
    refine ⟨iff_of_false ?_ (not_not_intro taken), fun _ => ⟨f, hfault, hrun⟩, values⟩
    rintro (⟨script, h⟩ | ⟨x, h⟩) <;> rw [hrun] at h <;> cases h
    exact Parser.fault?_ne_malformed s x hfault

/-- The number behind the fault is not come upon; alone it is. -/
theorem malformed_source_is_parse_error_iff_unreached :
    IncludeFree (TokenStream.ofString "return 1 ²;").tokens.1 ∧
      IncludeFree (TokenStream.ofString "return ²;").tokens.1 ∧
      ¬ Parser.TakesValueless ⟨.ofFiles "/" [], [], []⟩ 0 none (.ofString "return 1 ²;") ∧
      Parser.TakesValueless ⟨.ofFiles "/" [], [], []⟩ 0 none (.ofString "return ²;") := by
  have hbefore : IncludeFree (TokenStream.ofString "return 1 ²;").tokens.1 := by
    unfold IncludeFree
    decide +kernel
  have halone : IncludeFree (TokenStream.ofString "return ²;").tokens.1 := by
    unfold IncludeFree
    decide +kernel
  have herror : (match (parseText ⟨.ofFiles "/" [], [], []⟩ 0 none "return 1 ²;").result with
      | .error f => decide (f = .malformed ⟨.expected ";", 1, none⟩)
      | .ok _ => false) = true := by decide +kernel
  have hnumber : (match (parseText ⟨.ofFiles "/" [], [], []⟩ 0 none "return ²;").result with
      | .error f => decide (f = .notAnInteger "²" .malformed)
      | .ok _ => false) = true := by decide +kernel
  refine ⟨hbefore, halone,
    (malformed_source_is_parse_error_iff _ 0 none _ hbefore).1.1 (.inr ?_),
    of_not_not fun h => ?_⟩
  · split at herror
    · next f hf => exact ⟨_, by rw [hf, of_decide_eq_true herror]⟩
    · cases herror
  · have told := (malformed_source_is_parse_error_iff _ 0 none _ halone).1.2 h
    split at hnumber
    · next f hf =>
      rw [hf, of_decide_eq_true hnumber] at told
      rcases told with ⟨_, h⟩ | ⟨_, h⟩ <;> cases h
    · cases hnumber

/-- A superscript is scanned as a number and has no value. -/
theorem superscript_is_no_parse_error :
    IncludeFree (TokenStream.ofString "return ²;").tokens.1 ∧
      (parseText ⟨.ofFiles "/" [], [], []⟩ 0 none "return ²;").result =
        .error (.notAnInteger "²" .malformed) ∧
      ¬ ((∃ script, (parseText ⟨.ofFiles "/" [], [], []⟩ 0 none "return ²;").result = .ok script) ∨
        ∃ x, (parseText ⟨.ofFiles "/" [], [], []⟩ 0 none "return ²;").result =
          .error (.malformed x)) := by
  have hfree : IncludeFree (TokenStream.ofString "return ²;").tokens.1 := by
    unfold IncludeFree
    decide +kernel
  have hnumber : (match (parseText ⟨.ofFiles "/" [], [], []⟩ 0 none "return ²;").result with
      | .error f => decide (f = .notAnInteger "²" .malformed)
      | .ok _ => false) = true := by decide +kernel
  split at hnumber
  · next f hf =>
    rw [hf, of_decide_eq_true hnumber]
    exact ⟨hfree, rfl, by simp⟩
  · cases hnumber

end CellScript
