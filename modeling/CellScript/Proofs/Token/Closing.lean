import CellScript.Proofs.Token.Shape
import CellScript.Proofs.Token.Scan

/-!
# A semicolon behind a text

A semicolon behind a text is scanned as a token of its own, since no longer lexeme ends with one. It
changes nothing in front of it, with two exceptions: a comment that goes on to the end of the text
takes it in, and what is not closed stays so.

* `Lexer.scan_concat`: one piece with a semicolon behind its text;
* `SameUntil`: the same tokens up to a stop;
* `TokenStream.sameUntil_concat`: the tokens of a text with a semicolon behind it.
-/

namespace CellScript

namespace Lexer

/-- The same piece with one character more behind it. -/
def Scan.followedBy (s : Scan) (x : Char) : Scan := { s with rest := s.rest ++ [x] }

/-! ## Characters of a class -/

section

variable {p : Char → Bool} {x : Char} (hx : p x = false)

include hx

theorem takeWhile_concat (cs : List Char) : (cs ++ [x]).takeWhile p = cs.takeWhile p := by
  induction cs with
  | nil => simp [hx]
  | cons c cs ih => cases hc : p c <;> simp [hc, ih]

theorem dropWhile_concat (cs : List Char) : (cs ++ [x]).dropWhile p = cs.dropWhile p ++ [x] := by
  induction cs with
  | nil => simp [hx]
  | cons c cs ih => cases hc : p c <;> simp [hc, ih]

end

/-! ## Pieces -/

theorem splitComment_concat (cs : List Char) :
    splitComment (cs ++ [';']) =
      (splitComment cs).map fun (body, rest) => (body, rest ++ [';']) := by
  fun_induction splitComment cs with
  | case1 => rfl
  | case2 => rfl
  | case3 c cs hopen ih =>
    have hopen' : ∀ rest, c = '*' → cs ++ [';'] = '/' :: rest → False := by
      intro rest hc hcs
      cases cs with
      | nil => cases hcs
      | cons d cs =>
        obtain ⟨rfl, -⟩ := List.cons.inj hcs
        exact hopen cs hc rfl
    rw [List.cons_append, splitComment.eq_3 _ _ hopen', ih]
    cases splitComment cs <;> rfl

/-- The same contents with one character more behind them. -/
def Contents.followedBy (s : Contents) (x : Char) : Contents := { s with rest := s.rest ++ [x] }

theorem Contents.push_concat {s t : Contents} (written : List Char) (c : Char)
    (h : t = s.followedBy ';' ∨ ∃ f, t.value = .error f) :
    t.push written c = (s.push written c).followedBy ';' ∨
      ∃ f, (t.push written c).value = .error f := by
  rcases h with rfl | ⟨f, hf⟩
  · exact .inl rfl
  · exact .inr ⟨f, by rw [push, hf]; rfl⟩

theorem scanContents_plain {c : Char} (hc : c ≠ '\\') (cs : List Char) :
    scanContents (c :: cs) = if c == '"' then ⟨['"'], cs, .ok []⟩
      else if c == '\n' then ⟨[], c :: cs, .error .stringNotClosed⟩
      else (scanContents cs).push [c] c := by
  rw [scanContents.eq_4 _ _ (fun h => absurd h hc) fun _ _ h => absurd h hc]

theorem scanContents_concat (cs : List Char) :
    scanContents (cs ++ [';']) = (scanContents cs).followedBy ';' ∨
      ∃ f, (scanContents (cs ++ [';'])).value = .error f := by
  fun_induction scanContents cs with
  | case1 => exact .inr ⟨_, rfl⟩
  | case2 => exact .inr ⟨_, rfl⟩
  | case3 e rest c he ih =>
    have hread : scanContents ('\\' :: e :: rest ++ [';']) =
        (scanContents (rest ++ [';'])).push ['\\', e] c := by
      simp [scanContents, he]
    rw [hread]
    exact Contents.push_concat _ _ ih
  | case4 e rest he => exact .inr ⟨.unknownEscape, by simp [scanContents, he]⟩
  | case5 c rest hlast hescape hquote =>
    rw [List.cons_append, scanContents_plain (ne_slash hlast hescape), if_pos hquote]
    exact .inl rfl
  | case6 c rest hlast hescape hquote hbreak =>
    rw [List.cons_append, scanContents_plain (ne_slash hlast hescape), if_neg hquote,
      if_pos hbreak]
    exact .inr ⟨_, rfl⟩
  | case7 c rest hlast hescape hquote hbreak ih =>
    rw [List.cons_append, scanContents_plain (ne_slash hlast hescape), if_neg hquote,
      if_neg hbreak]
    exact Contents.push_concat _ _ ih

theorem longest?_concat (c : Char) (cs : List Char) :
    Mark.longest? c (cs ++ [';']) = Mark.longest? c cs := by
  cases cs with
  | cons => rfl
  | nil =>
    have hpair : Mark.ofChars? [c, ';'] = none := by
      rw [Option.eq_none_iff_forall_ne_some]
      intro m hm
      have hlast : m.chars.tail ≠ [';'] := by cases m <;> decide
      exact hlast (by rw [Mark.chars_of_ofChars? hm]; rfl)
    change (Mark.ofChars? [c, ';']).or (Mark.ofChars? [c]) = Mark.ofChars? [c]
    rw [hpair, Option.none_or]

theorem scanMark_concat (c : Char) (cs : List Char) :
    scanMark c (cs ++ [';']) = (scanMark c cs).followedBy ';' := by
  unfold scanMark
  rw [longest?_concat]
  cases hm : Mark.longest? c cs with
  | none => rfl
  | some m =>
    have hlength : m.chars.length - 1 ≤ cs.length := by
      have happend := congrArg List.length (Mark.chars_of_longest? hm).1
      rw [List.length_cons, List.length_take] at happend
      omega
    simp only [Scan.followedBy, List.take_append_of_le_length hlength,
      List.drop_append_of_le_length hlength]

theorem scanFraction_concat (whole cs : List Char) :
    scanFraction whole (cs ++ [';']) = (scanFraction whole cs).followedBy ';' := by
  unfold scanFraction
  rw [takeWhile_concat (by decide), dropWhile_concat (by decide)]
  generalize cs.dropWhile isDigit = rest
  cases rest with
  | nil => rfl
  | cons d rest =>
    by_cases hd : d = '.'
    · subst hd
      rfl
    · simp [hd, Scan.followedBy]

theorem scanNumber_concat (c : Char) (cs : List Char) :
    scanNumber c (cs ++ [';']) = (scanNumber c cs).followedBy ';' := by
  have hex (x : Char) (ds : List Char) :
      scanHex x (ds ++ [';']) = (scanHex x ds).followedBy ';' := by
    unfold scanHex
    rw [takeWhile_concat (by decide), dropWhile_concat (by decide)]
    rfl
  have decimal : scanDecimal c (cs ++ [';']) = (scanDecimal c cs).followedBy ';' := by
    unfold scanDecimal
    rw [takeWhile_concat (by decide), dropWhile_concat (by decide)]
    generalize cs.dropWhile isDigit = rest
    cases rest with
    | nil => rfl
    | cons d rest =>
      by_cases hd : d = '.'
      · subst hd
        exact scanFraction_concat _ rest
      · simp [hd, Scan.followedBy]
  have behind {d : Char} (hd : d ≠ ';') (hplain : ∀ rest, c = '0' → cs = d :: rest → False) :
      ∀ rest, c = '0' → cs ++ [';'] = d :: rest → False := by
    intro rest hc hcs
    cases cs with
    | nil => exact hd (List.cons.inj hcs).1.symm
    | cons e cs =>
      obtain ⟨rfl, -⟩ := List.cons.inj hcs
      exact hplain cs hc rfl
  fun_cases scanNumber c cs with
  | case1 rest => exact hex 'x' rest
  | case2 rest => exact hex 'X' rest
  | case3 _ _ hx hX =>
    rw [scanNumber.eq_3 _ _ (behind (by decide) hx) (behind (by decide) hX), decimal]

theorem scanLineComment_concat (cs : List Char) :
    scanLineComment (cs ++ [';']) = (scanLineComment cs).followedBy ';' ∨
      (scanLineComment cs).rest = [] ∧ (scanLineComment (cs ++ [';'])).rest = [] := by
  unfold scanLineComment
  by_cases hrest : cs.dropWhile inLine = []
  · refine .inr ⟨hrest, ?_⟩
    rw [List.dropWhile_append, hrest]
    rfl
  · refine .inl ?_
    have hlength : (cs.takeWhile inLine).length ≠ cs.length := by
      intro hall
      have hparts := congrArg List.length (List.takeWhile_append_dropWhile (p := inLine) (l := cs))
      rw [List.length_append, hall, Nat.add_eq_left, List.length_eq_zero_iff] at hparts
      exact hrest hparts
    rw [List.takeWhile_append, List.dropWhile_append, if_neg hlength]
    simp [hrest, Scan.followedBy]

theorem scanBlockComment_concat (cs : List Char) :
    scanBlockComment (cs ++ [';']) = (scanBlockComment cs).followedBy ';' ∨
      ∃ f, (scanBlockComment (cs ++ [';'])).piece = .fault f := by
  unfold scanBlockComment
  rw [splitComment_concat]
  cases splitComment cs with
  | none => exact .inr ⟨_, rfl⟩
  | some => exact .inl rfl

theorem scanString_concat (cs : List Char) :
    scanString (cs ++ [';']) = (scanString cs).followedBy ';' ∨
      ∃ f, (scanString (cs ++ [';'])).piece = .fault f := by
  unfold scanString
  rcases scanContents_concat cs with h | ⟨f, h⟩
  · rw [h]
    exact .inl rfl
  · exact .inr ⟨f, by simp only [h]⟩

/-- One piece with a semicolon behind its text. It is the same unless it is a comment to the end of
the text, or not closed. -/
theorem scan_concat (c : Char) (cs : List Char) :
    scan c (cs ++ [';']) = (scan c cs).followedBy ';' ∨
      (((scan c cs).piece = .gap ∧ (scan c cs).rest = []) ∧
        (scan c (cs ++ [';'])).piece = .gap ∧ (scan c (cs ++ [';'])).rest = []) ∨
      ∃ f, (scan c (cs ++ [';'])).piece = .fault f := by
  have hhead {d : Char} (hd : d ≠ ';') :
      ((cs ++ [';']).head? == some d) = (cs.head? == some d) := by
    cases cs with
    | nil => simp [hd.symm]
    | cons => rfl
  have htail {d : Char} (hd : (c == '/' && cs.head? == some d) = true) :
      (cs ++ [';']).tail = cs.tail ++ [';'] := by
    cases cs with
    | nil => simp at hd
    | cons => rfl
  have hdigit : startsWithDigit (cs ++ [';']) = startsWithDigit cs := by
    cases cs with
    | nil => decide
    | cons => rfl
  unfold scan
  rw [hhead (by decide), hhead (by decide), hdigit]
  split
  · exact .inl rfl
  split
  · next hline =>
    rw [htail hline]
    exact (scanLineComment_concat cs.tail).imp id fun ⟨h, h'⟩ => .inl ⟨⟨rfl, h⟩, rfl, h'⟩
  split
  · next hblock =>
    rw [htail hblock]
    exact (scanBlockComment_concat cs.tail).imp id .inr
  split
  · refine .inl ?_
    unfold scanName
    rw [takeWhile_concat (by decide), dropWhile_concat (by decide)]
    rfl
  split
  · exact .inl (scanNumber_concat c cs)
  split
  · exact .inl (scanFraction_concat [] cs)
  split
  · exact (scanString_concat cs).imp id .inr
  · exact .inl (scanMark_concat c cs)

end Lexer

/-! ## Tokens in front of a stop -/

/-- The tokens differ in their columns at most. -/
structure Token.Alike (t u : Token) : Prop where
  kind : t.kind = u.kind
  value : t.value = u.value
  line : t.line = u.line

/-- The second steps are the first ones up to a stop, which is given with all that follows it.
Nothing is said behind a fault in the first ones. -/
inductive SameUntil (stop : List (Except LexError Token)) :
    (steps steps' : List (Except LexError Token)) → Prop
  | stop : SameUntil stop stop []
  | fault {e : LexError} {steps steps' : List (Except LexError Token)} :
    SameUntil stop (.error e :: steps) steps'
  | token {t u : Token} {steps steps' : List (Except LexError Token)} (alike : t.Alike u)
    (open_ : t.kind ≠ .mark .semicolon) (inside : t.kind ≠ .endOfSource)
    (rest : SameUntil stop steps steps') : SameUntil stop (.ok t :: steps) (.ok u :: steps')

/-- What may stand behind a text: nothing, or a semicolon. -/
def IsClosing (stop : List (Except LexError Token)) : Prop :=
  stop = [] ∨ ∃ t : Token, t.kind = .mark .semicolon ∧ stop = [.ok t]

/-- The line behind a text depends on the line in front of it only. -/
theorem Position.line_advance {p q : Position} (h : p.line = q.line) (cs : List Char) :
    (p.advance cs).line = (q.advance cs).line := by
  induction cs generalizing p q with
  | nil => exact h
  | cons c cs ih =>
    refine ih ?_
    unfold Position.step
    split
    · exact congrArg (· + 1) h
    · exact h

namespace TokenStream

/-- No token of the stream is a semicolon. -/
def NoSemicolon (s : TokenStream) : Prop := ∀ t, .ok t ∈ s.steps → t.kind ≠ .mark .semicolon

instance (s : TokenStream) : Decidable s.NoSemicolon :=
  decidable_of_iff (s.steps.all fun
    | .ok t => t.kind != .mark .semicolon
    | .error _ => true) (by
    rw [List.all_eq_true]
    constructor
    · exact fun h t ht => by simpa using h _ ht
    · intro h step hstep
      cases step with
      | ok t => simpa using h t hstep
      | error e => rfl)

theorem steps_scanFrom_nil (n : Nat) (p : Position) : (scanFrom n p []).steps = [] := by
  cases n <;> rfl

/-- A text with a semicolon behind it, scanned from a place on the same line. -/
theorem sameUntil_concat {n m : Nat} {p q : Position} {cs : List Char} (hn : cs.length < n)
    (hm : cs.length ≤ m) (hline : p.line = q.line) (hfree : (scanFrom m q cs).NoSemicolon) :
    ∃ stop, IsClosing stop ∧
      SameUntil stop (scanFrom n p (cs ++ [';'])).steps (scanFrom m q cs).steps := by
  -- Piece by piece the texts go on alike, up to the end or to a piece that takes in the semicolon.
  induction n generalizing m p q cs with
  | zero => omega
  | succ n ih =>
    cases cs with
    | nil =>
      rw [steps_scanFrom_nil]
      have hsteps : (scanFrom (n + 1) p [';']).steps =
          [.ok ⟨.mark .semicolon, Mark.semicolon.spelling, p⟩] := by
        change _ :: (scanFrom n _ []).steps = _
        rw [steps_scanFrom_nil]
      rw [List.nil_append, hsteps]
      exact ⟨_, .inr ⟨_, rfl, rfl⟩, .stop⟩
    | cons c cs =>
      obtain ⟨m, rfl⟩ := Nat.exists_eq_succ_of_ne_zero (n := m) (by simp at hm; omega)
      rw [List.length_cons] at hn hm
      have hlength := Lexer.scan_rest_length c cs
      have hright := Lexer.scan_right c cs
      rw [List.cons_append]
      unfold scanFrom at hfree ⊢
      dsimp only at hfree ⊢
      rcases Lexer.scan_concat c cs with hsame | ⟨⟨hgap, hnil⟩, hgap', hnil'⟩ | ⟨f, hfault⟩
      · rw [hsame]
        dsimp only [Lexer.Scan.followedBy]
        have hrest := @ih m (p.advance (Lexer.scan c cs).lexeme)
          (q.advance (Lexer.scan c cs).lexeme) (Lexer.scan c cs).rest (by omega) (by omega)
          (Position.line_advance hline _)
        cases hpiece : (Lexer.scan c cs).piece with
        | gap =>
          rw [hpiece] at hfree
          exact hrest hfree
        | token kind value =>
          rw [hpiece] at hfree
          rw [Lexer.Scan.Right, hpiece] at hright
          obtain ⟨stop, hstop, hsteps⟩ := hrest fun t ht => hfree t (List.mem_cons_of_mem _ ht)
          have hopen : kind ≠ .mark .semicolon := hfree ⟨kind, value, q⟩ List.mem_cons_self
          exact ⟨stop, hstop, .token ⟨rfl, rfl, hline⟩ hopen hright.1.ne_endOfSource hsteps⟩
        | fault f => exact ⟨[], .inl rfl, .fault⟩
      · rw [hgap, hgap', hnil, hnil']
        exact ⟨[], .inl rfl, by rw [steps_scanFrom_nil, steps_scanFrom_nil]; exact .stop⟩
      · rw [hfault]
        exact ⟨[], .inl rfl, .fault⟩

theorem toList_returning (source : String) :
    s!"return {source};".toList = "return ".toList ++ (source.toList ++ [';']) := by
  change ("return " ++ source ++ ";").toList = _
  rw [String.toList_append, String.toList_append, List.append_assoc]
  rfl

/-- A text behind the word `return` and a space. -/
theorem steps_returning (cs : List Char) :
    (ofChars ("return ".toList ++ cs)).steps =
      .ok ⟨.keyword .return, "return", .start⟩ ::
        (scanFrom (cs.length + 5) (Position.start.advance "return ".toList) cs).steps := by
  have hlength : ("return ".toList ++ cs).length = cs.length + 5 + 1 + 1 := by simp
  have htext : "return ".toList ++ cs = 'r' :: ("eturn ".toList ++ cs) := rfl
  have hword : Lexer.scan 'r' ("eturn ".toList ++ cs) =
      ⟨.token (.keyword .return) "return", "return".toList, ' ' :: cs⟩ := rfl
  have hgap : Lexer.scan ' ' cs = ⟨.gap, [' '], cs⟩ := rfl
  unfold ofChars
  rw [hlength, htext, scanFrom, hword]
  dsimp only
  rw [scanFrom, hgap]
  rfl

end TokenStream

/-- Steps with a semicolon among them have a stop at the first one. -/
theorem exists_sameUntil {steps : List (Except LexError Token)}
    (hinside : ∀ t, .ok t ∈ steps → t.kind ≠ .endOfSource)
    (hmem : ∃ t, .ok t ∈ steps ∧ t.kind = .mark .semicolon) :
    ∃ (t : Token) (rest steps' : List (Except LexError Token)), t.kind = .mark .semicolon ∧
      SameUntil (.ok t :: rest) steps steps' := by
  induction steps with
  | nil =>
    obtain ⟨t, ht, -⟩ := hmem
    cases ht
  | cons step steps ih =>
    obtain ⟨t, ht, hkind⟩ := hmem
    cases step with
    | error e => exact ⟨t, [], [], hkind, .fault⟩
    | ok u =>
      by_cases hu : u.kind = .mark .semicolon
      · exact ⟨u, steps, [], hu, .stop⟩
      · have hne : Except.ok t ≠ (.ok u : Except LexError Token) := by
          intro heq
          cases heq
          exact hu hkind
        obtain ⟨v, rest, steps', hv, hsteps⟩ :=
          ih (fun t ht => hinside t (List.mem_cons_of_mem _ ht))
            ⟨t, (List.mem_cons.1 ht).resolve_left hne, hkind⟩
        exact ⟨v, rest, _, hv, .token ⟨rfl, rfl, rfl⟩ hu (hinside u List.mem_cons_self) hsteps⟩

end CellScript
