import CellScript.Proofs.Token.Scan

/-!
# What the pieces of a text look like

The lexical rules, stated without reference to how a text is scanned: what may stand between tokens,
how a token of each kind is written and what its value is, and what is wrong where there is a fault.

* `GapPiece`, `TokenKind.Shape`, `Unescapes`, `LexFault.Stands`: the rules;
* `Lexer.scan_right`: every piece that is scanned keeps to them.
-/

namespace CellScript

/-! ## The rules -/

/-- One blank or comment in front of a text. A comment ends with its line, or with the first end
mark behind its opening. -/
inductive GapPiece : (gap rest : List Char) → Prop
  | blank {c : Char} {rest : List Char} (hc : isGap c = true) : GapPiece [c] rest
  | line {body rest : List Char} (hbody : '\n' ∉ body) (hrest : ∀ c ∈ rest.head?, c = '\n') :
      GapPiece ('/' :: '/' :: body) rest
  | block {body rest : List Char} (hbody : ¬ ['*', '/'] <:+: body ++ ['*']) :
      GapPiece ('/' :: '*' :: (body ++ ['*', '/'])) rest

/-- The inside of a string as written, and the text that it stands for. -/
inductive Unescapes : (written text : List Char) → Prop
  | nil : Unescapes [] []
  | plain {c : Char} {written text : List Char} (hquote : c ≠ '"') (hslash : c ≠ '\\')
      (hbreak : c ≠ '\n') (h : Unescapes written text) : Unescapes (c :: written) (c :: text)
  | escape {e c : Char} {written text : List Char} (he : Lexer.escaped? e = some c)
      (h : Unescapes written text) : Unescapes ('\\' :: e :: written) (c :: text)

/-- How a token of a kind is written. -/
inductive TokenKind.Shape : TokenKind → List Char → Prop
  | name {c : Char} {cs : List Char} (hc : isNameStart c = true)
      (hcs : ∀ x ∈ cs, isNameChar x = true)
      (hword : Keyword.ofSpelling? (String.ofList (c :: cs)) = none) : Shape .ident (c :: cs)
  | keyword (k : Keyword) : Shape (.keyword k) k.spelling.toList
  | decimal {ds : List Char} (hne : ds ≠ []) (hds : ∀ x ∈ ds, isDigit x = true) : Shape .integer ds
  | hex {x : Char} {ds : List Char} (hx : x = 'x' ∨ x = 'X') (hne : ds ≠ [])
      (hds : ∀ d ∈ ds, Lexer.isHexDigit d = true) : Shape .integer ('0' :: x :: ds)
  | real {whole part : List Char} (hne : whole ++ part ≠ [])
      (hds : ∀ x ∈ whole ++ part, isDigit x = true) : Shape .real (whole ++ '.' :: part)
  | string {inner text : List Char} (h : Unescapes inner text) :
      Shape .string ('"' :: (inner ++ ['"']))
  | mark (m : Mark) : Shape (.mark m) m.chars
  | invalid {c : Char} (hgap : isGap c = false) (hname : isNameStart c = false)
      (hdigit : isDigit c = false) (hquote : c ≠ '"') (hmark : Mark.ofChars? [c] = none) :
      Shape .invalid [c]

/-- A token of this kind and value is written as `lexeme`: a string stands for its unescaped inside,
every other token for itself. -/
structure TokenKind.WrittenAs (kind : TokenKind) (value : String) (lexeme : List Char) : Prop where
  shape : kind.Shape lexeme
  plain : kind ≠ .string → value = String.ofList lexeme
  quoted : kind = .string →
    ∃ inner, lexeme = '"' :: (inner ++ ['"']) ∧ Unescapes inner value.toList

/-- What is wrong at the front of a text. -/
inductive LexFault.Stands : LexFault → List Char → Prop
  | commentNotClosed {body : List Char} (h : ¬ ['*', '/'] <:+: body) :
      Stands .commentNotClosed ('/' :: '*' :: body)
  | hexDigitsExpected {x : Char} {rest : List Char} (hx : x = 'x' ∨ x = 'X')
      (hrest : ∀ d ∈ rest.head?, Lexer.isHexDigit d = false) :
      Stands .hexDigitsExpected ('0' :: x :: rest)
  | malformedReal {whole part rest : List Char} (hds : ∀ x ∈ whole ++ part, isDigit x = true) :
      Stands .malformedReal (whole ++ '.' :: (part ++ '.' :: rest))
  | stringNotClosed {inner text rest : List Char} (h : Unescapes inner text)
      (hrest : ∀ c ∈ rest.head?, c = '\n') : Stands .stringNotClosed ('"' :: (inner ++ rest))
  | unknownEscape {inner text rest : List Char} (h : Unescapes inner text)
      (hrest : ∀ c ∈ rest.head?, Lexer.escaped? c = none) :
      Stands .unknownEscape ('"' :: (inner ++ '\\' :: rest))

/-- A piece keeps to the rules. -/
def Lexer.Scan.Right (s : Scan) : Prop :=
  match s.piece with
  | .gap => GapPiece s.lexeme s.rest
  | .token kind value => kind.WrittenAs value s.lexeme
  | .fault f => f.Stands (s.lexeme ++ s.rest)

/-- A token that is no string stands for itself. -/
theorem TokenKind.Shape.writtenAs {kind : TokenKind} {lexeme : List Char} (h : kind.Shape lexeme)
    (hkind : kind ≠ .string) : kind.WrittenAs (String.ofList lexeme) lexeme :=
  ⟨h, fun _ => rfl, fun hstring => absurd hstring hkind⟩

theorem TokenKind.Shape.ne_nil {kind : TokenKind} {lexeme : List Char} (h : kind.Shape lexeme) :
    lexeme ≠ [] := by
  cases h with
  | decimal hne _ => exact hne
  | keyword k => cases k <;> decide
  | mark m => cases m <;> decide
  | real => simp
  | _ => exact List.cons_ne_nil _ _

theorem TokenKind.Shape.ne_endOfSource {kind : TokenKind} {lexeme : List Char}
    (h : kind.Shape lexeme) : kind ≠ .endOfSource := by
  cases h <;> nofun

/-! ## Marks -/

theorem Mark.length_chars_le (m : Mark) : m.chars.length ≤ 2 := by cases m <;> decide

theorem Mark.chars_of_ofChars? {cs : List Char} {m : Mark} (h : ofChars? cs = some m) :
    m.chars = cs := by
  have hfound := List.find?_some h
  exact eq_of_beq hfound

/-- No mark has three characters. -/
theorem Mark.ofChars?_three (x y z : Char) : ofChars? [x, y, z] = none := by
  rw [Option.eq_none_iff_forall_ne_some]
  intro m hm
  have hlength := m.length_chars_le
  rw [chars_of_ofChars? hm] at hlength
  exact absurd hlength (by simp)

/-- The longest mark stands at the front of the text. -/
theorem Mark.chars_of_longest? {x : Char} {xs : List Char} {m : Mark}
    (h : longest? x xs = some m) :
    m.chars = x :: xs.take (m.chars.length - 1) ∧
      m.chars ++ xs.drop (m.chars.length - 1) = x :: xs := by
  unfold longest? at h
  cases xs with
  | nil =>
    rw [chars_of_ofChars? h]
    exact ⟨rfl, rfl⟩
  | cons y rest =>
    rcases Option.or_eq_some_iff.1 h with h | ⟨-, h⟩
    · rw [chars_of_ofChars? h]
      exact ⟨rfl, rfl⟩
    · rw [chars_of_ofChars? h]
      exact ⟨rfl, rfl⟩

namespace Lexer

/-! ## Comments -/

/-- A pair of characters at the front of a text. -/
theorem pair_infix_cons {x y c : Char} {cs : List Char} (h : [x, y] <:+: c :: cs) :
    (c = x ∧ cs.head? = some y) ∨ [x, y] <:+: cs := by
  rcases List.infix_cons_iff.1 h with hfront | hrest
  · rw [List.cons_prefix_cons] at hfront
    obtain ⟨rfl, rest, rfl⟩ := hfront
    exact .inl ⟨rfl, rfl⟩
  · exact .inr hrest

theorem splitComment_none {cs : List Char} (h : splitComment cs = none) :
    ¬ ['*', '/'] <:+: cs := by
  fun_induction splitComment cs with
  | case1 => simp
  | case2 => cases h
  | case3 c cs hopen ih =>
    intro hinfix
    rcases pair_infix_cons hinfix with ⟨hstar, hslash⟩ | hrest
    · obtain ⟨rest, hrest⟩ := List.head?_eq_some_iff.1 hslash
      exact hopen rest hstar hrest
    · exact ih (Option.map_eq_none_iff.1 h) hrest

/-- A comment ends with its first end mark. -/
theorem splitComment_some {cs body rest : List Char} (h : splitComment cs = some (body, rest)) :
    ∃ inner, body = inner ++ ['*', '/'] ∧ ¬ ['*', '/'] <:+: inner ++ ['*'] := by
  fun_induction splitComment cs generalizing body rest with
  | case1 => cases h
  | case2 =>
    cases h
    exact ⟨[], rfl, by decide⟩
  | case3 c cs hopen ih =>
    obtain ⟨⟨body', rest'⟩, hsplit, heq⟩ := Option.map_eq_some_iff.1 h
    cases heq
    obtain ⟨inner, rfl, hinner⟩ := ih hsplit
    refine ⟨c :: inner, rfl, ?_⟩
    intro hinfix
    rcases pair_infix_cons hinfix with ⟨hstar, hslash⟩ | hrest
    · have happend := splitComment_append hsplit
      cases inner with
      | nil => cases hslash
      | cons d inner =>
        cases hslash
        exact hopen _ hstar happend.symm
    · exact hinner hrest

theorem scanBlockComment_right (cs : List Char) : (scanBlockComment cs).Right := by
  unfold scanBlockComment
  split
  · next body rest hsplit =>
    obtain ⟨inner, rfl, hinner⟩ := splitComment_some hsplit
    exact GapPiece.block hinner
  · next hsplit =>
    have hopen := LexFault.Stands.commentNotClosed (splitComment_none hsplit)
    simpa [Scan.Right] using hopen

/-- Behind a run of characters of a class none of the class stands. -/
theorem head?_dropWhile {p : Char → Bool} {cs : List Char} :
    ∀ c ∈ (cs.dropWhile p).head?, p c = false := by
  intro c hc
  have hnot := List.head?_dropWhile_not p cs
  rw [Option.mem_def.1 hc] at hnot
  exact hnot

/-- A run of characters of a class. -/
theorem forall_takeWhile {p : Char → Bool} {cs : List Char} :
    ∀ c ∈ cs.takeWhile p, p c = true :=
  List.all_eq_true.1 List.all_takeWhile

theorem scanLineComment_right (cs : List Char) : (scanLineComment cs).Right := by
  refine GapPiece.line ?_ ?_
  · intro hmem
    exact absurd (forall_takeWhile _ hmem) (by decide)
  · intro c hc
    have hstop := head?_dropWhile c hc
    simpa [inLine] using hstop

/-! ## Names and numbers -/

theorem scanName_right {c : Char} (hc : isNameStart c = true) (cs : List Char) :
    (scanName c cs).Right := by
  unfold scanName
  dsimp only
  split
  · next k hk =>
    have hspelling : k.spelling = String.ofList (c :: cs.takeWhile isNameChar) := by
      have hfound := List.find?_some hk
      exact eq_of_beq hfound
    have hshape := TokenKind.Shape.keyword k
    rw [hspelling, String.toList_ofList] at hshape
    exact hshape.writtenAs nofun
  · next hword => exact (TokenKind.Shape.name hc forall_takeWhile hword).writtenAs nofun

theorem scanHex_right {x : Char} (hx : x = 'x' ∨ x = 'X') (cs : List Char) :
    (scanHex x cs).Right := by
  unfold scanHex
  dsimp only
  split
  · next hempty =>
    have hnone : cs.takeWhile isHexDigit = [] := List.isEmpty_iff.1 hempty
    have hstop : ∀ c ∈ (cs.dropWhile isHexDigit).head?, isHexDigit c = false := head?_dropWhile
    have hfault := LexFault.Stands.hexDigitsExpected hx hstop
    simpa [Scan.Right, hnone] using hfault
  · next hempty =>
    have hne : cs.takeWhile isHexDigit ≠ [] := fun h => hempty (List.isEmpty_iff.2 h)
    exact (TokenKind.Shape.hex hx hne forall_takeWhile).writtenAs nofun

/-- A number with a point has a digit on one side of it at least. -/
theorem scanFraction_right {whole cs : List Char} (hwhole : ∀ x ∈ whole, isDigit x = true)
    (hne : whole ≠ [] ∨ startsWithDigit cs = true) : (scanFraction whole cs).Right := by
  have hds : ∀ x ∈ whole ++ cs.takeWhile isDigit, isDigit x = true := by
    intro x hx
    rcases List.mem_append.1 hx with hx | hx
    · exact hwhole x hx
    · exact forall_takeWhile x hx
  unfold scanFraction
  dsimp only
  split
  · next rest _ =>
    have hfault : LexFault.Stands .malformedReal
        (whole ++ '.' :: (cs.takeWhile isDigit ++ '.' :: rest)) := .malformedReal hds
    simpa [Scan.Right] using hfault
  · have hdigit : whole ++ cs.takeWhile isDigit ≠ [] := by
      rcases hne with hne | hne
      · simp [hne]
      · cases cs with
        | nil => cases hne
        | cons c cs => simp [show isDigit c = true from hne]
    exact (TokenKind.Shape.real hdigit hds).writtenAs nofun

theorem scanNumber_right {c : Char} (hc : isDigit c = true) (cs : List Char) :
    (scanNumber c cs).Right := by
  have hdigits : ∀ x ∈ c :: cs.takeWhile isDigit, isDigit x = true := by
    intro x hx
    rcases List.mem_cons.1 hx with rfl | hx
    · exact hc
    · exact forall_takeWhile x hx
  unfold scanNumber
  split
  · exact scanHex_right (.inl rfl) _
  · exact scanHex_right (.inr rfl) _
  · unfold scanDecimal
    dsimp only
    split
    · exact scanFraction_right hdigits (.inl (List.cons_ne_nil _ _))
    · exact (TokenKind.Shape.decimal (List.cons_ne_nil _ _) hdigits).writtenAs nofun

/-! ## Strings and marks -/

theorem push_ok {s : Contents} {written text : List Char} {c : Char}
    (h : (s.push written c).value = .ok text) : ∃ more, s.value = .ok more ∧ text = c :: more := by
  obtain ⟨lexeme, rest, value⟩ := s
  cases value with
  | error f => cases h
  | ok more =>
    cases h
    exact ⟨more, rfl, rfl⟩

theorem push_error {s : Contents} {written : List Char} {c : Char} {f : LexFault}
    (h : (s.push written c).value = .error f) : s.value = .error f := by
  obtain ⟨lexeme, rest, value⟩ := s
  cases value with
  | error g =>
    cases h
    rfl
  | ok more => cases h

/-- A character that opens no escape. -/
theorem ne_slash {c : Char} {cs : List Char} (hlast : c = '\\' → cs = [] → False)
    (hescape : ∀ e rest, c = '\\' → cs = e :: rest → False) : c ≠ '\\' := by
  intro hc
  cases cs with
  | nil => exact hlast hc rfl
  | cons e rest => exact hescape e rest hc rfl

/-- A string that is closed stands for its unescaped inside. -/
theorem scanContents_ok {cs text : List Char} (h : (scanContents cs).value = .ok text) :
    ∃ inner, (scanContents cs).lexeme = inner ++ ['"'] ∧ Unescapes inner text := by
  fun_induction scanContents cs generalizing text with
  | case1 => cases h
  | case2 => cases h
  | case3 e rest c he ih =>
    obtain ⟨more, hmore, rfl⟩ := push_ok h
    obtain ⟨inner, hinner, hunescapes⟩ := ih hmore
    exact ⟨'\\' :: e :: inner, by simp [Contents.push, hinner], .escape he hunescapes⟩
  | case4 => cases h
  | case5 =>
    cases h
    exact ⟨[], rfl, .nil⟩
  | case6 => cases h
  | case7 c rest hlast hescape hquote hbreak ih =>
    rw [beq_iff_eq] at hquote hbreak
    obtain ⟨more, hmore, rfl⟩ := push_ok h
    obtain ⟨inner, hinner, hunescapes⟩ := ih hmore
    exact ⟨c :: inner, by simp [Contents.push, hinner],
      .plain hquote (ne_slash hlast hescape) hbreak hunescapes⟩

/-- The inside of a string that is not closed, up to its first fault. -/
theorem scanContents_error {cs : List Char} {f : LexFault}
    (h : (scanContents cs).value = .error f) :
    ∃ inner text rest, Unescapes inner text ∧ cs = inner ++ rest ∧
      ((f = .stringNotClosed ∧ ∀ c ∈ rest.head?, c = '\n') ∨
        f = .unknownEscape ∧
          ∃ more, rest = '\\' :: more ∧ ∀ c ∈ more.head?, escaped? c = none) := by
  fun_induction scanContents cs generalizing f with
  | case1 =>
    cases h
    exact ⟨[], [], [], .nil, rfl, .inl ⟨rfl, by simp⟩⟩
  | case2 =>
    cases h
    exact ⟨[], [], ['\\'], .nil, rfl, .inr ⟨rfl, [], rfl, by simp⟩⟩
  | case3 e rest c he ih =>
    obtain ⟨inner, text, left, hunescapes, rfl, hfault⟩ := ih (push_error h)
    exact ⟨'\\' :: e :: inner, c :: text, left, .escape he hunescapes, rfl, hfault⟩
  | case4 e rest he =>
    cases h
    refine ⟨[], [], '\\' :: e :: rest, .nil, rfl, .inr ⟨rfl, e :: rest, rfl, ?_⟩⟩
    rintro _ ⟨⟩
    exact he
  | case5 => cases h
  | case6 c rest _ _ _ hbreak =>
    cases h
    refine ⟨[], [], c :: rest, .nil, rfl, .inl ⟨rfl, ?_⟩⟩
    rintro _ ⟨⟩
    exact eq_of_beq hbreak
  | case7 c rest hlast hescape hquote hbreak ih =>
    rw [beq_iff_eq] at hquote hbreak
    obtain ⟨inner, text, left, hunescapes, rfl, hfault⟩ := ih (push_error h)
    exact ⟨c :: inner, c :: text, left, .plain hquote (ne_slash hlast hescape) hbreak hunescapes,
      rfl, hfault⟩

theorem scanString_right (cs : List Char) : (scanString cs).Right := by
  have happend := scanContents_append cs
  unfold scanString Scan.Right
  dsimp only
  cases hvalue : (scanContents cs).value with
  | ok text =>
    obtain ⟨inner, hlexeme, hunescapes⟩ := scanContents_ok hvalue
    dsimp only
    rw [hlexeme]
    exact ⟨.string hunescapes, nofun, fun _ => ⟨inner, rfl, by simpa using hunescapes⟩⟩
  | error f =>
    obtain ⟨inner, text, rest, hunescapes, rfl, hfault⟩ := scanContents_error hvalue
    dsimp only
    rw [List.cons_append, happend]
    obtain ⟨rfl, hrest⟩ | ⟨rfl, more, rfl, hmore⟩ := hfault
    · exact .stringNotClosed hunescapes hrest
    · exact .unknownEscape hunescapes hmore

theorem scanMark_right {c : Char} (hgap : isGap c = false) (hname : isNameStart c = false)
    (hdigit : isDigit c = false) (hquote : c ≠ '"') (cs : List Char) : (scanMark c cs).Right := by
  unfold scanMark
  split
  · next m hm =>
    have hchars := (Mark.chars_of_longest? hm).1
    change (TokenKind.mark m).WrittenAs m.spelling (c :: cs.take (m.chars.length - 1))
    rw [← hchars]
    exact (TokenKind.Shape.mark m).writtenAs nofun
  · next hm =>
    have hmark : Mark.ofChars? [c] = none := by
      unfold Mark.longest? at hm
      cases cs with
      | nil => exact hm
      | cons d rest => exact (Option.or_eq_none_iff.1 hm).2
    exact (TokenKind.Shape.invalid hgap hname hdigit hquote hmark).writtenAs nofun

/-- Every piece keeps to the rules. -/
theorem scan_right (c : Char) (cs : List Char) : (scan c cs).Right := by
  unfold scan
  split
  · next hc => exact GapPiece.blank hc
  next hgap =>
  split
  · exact scanLineComment_right _
  split
  · exact scanBlockComment_right _
  split
  · next hc => exact scanName_right hc cs
  next hname =>
  split
  · next hc => exact scanNumber_right hc cs
  next hdigit =>
  split
  · next hdot =>
    rw [Bool.and_eq_true] at hdot
    exact scanFraction_right nofun (.inr hdot.2)
  split
  · exact scanString_right cs
  · next hquote =>
    refine scanMark_right ?_ ?_ ?_ ?_ cs
    all_goals simp_all

end Lexer

end CellScript
