import CellScript.Proofs.Print.Printer
import CellScript.Proofs.Text.Numerals
import CellScript.Proofs.Token.Shape

/-!
# Lexing undoes writing

A lexeme that keeps to the lexical rules is scanned as that lexeme if a space or nothing follows it.
So the tokens of a text that was written with spaces between its lexemes are those that it was made
of, whatever they are.

* `Lexeme.Formed`: the lexemes that can be written;
* `Lexeme.scan_integer`: integers are scanned back in front of what does not go on with them;
* `TokenKind.Shape.scan`, `Lexeme.Formed.scan`: one of them is scanned back;
* `Lexeme.steps_ofChars`: so are all of a text;
* `lexing_undoes_writing`: what this says of the tokens of a text.
-/

namespace CellScript

/-- A lexeme that can be written: a string with any contents, or a value that keeps to the lexical
rules of its kind. A character that starts nothing has no spelling of its own. -/
structure Lexeme.Formed (l : Lexeme) : Prop where
  valid : l.kind ≠ .invalid
  shape : l.kind ≠ .string → l.kind.Shape l.value.toList

namespace Lexeme

@[simp] theorem text_mark (m : Mark) : (mark m).text = m.chars := String.toList_ofList

@[simp] theorem text_keyword (k : Keyword) : (keyword k).text = k.spelling.toList := rfl

@[simp] theorem text_name (n : String) : (name n).text = n.toList := rfl

@[simp] theorem text_string (s : String) :
    (string s).text = '"' :: s.toList.flatMap escape ++ ['"'] := rfl

@[simp] theorem text_integer (n : Nat) : (integer n).text = (numeral n).toList := rfl

/-! ## Integers -/

/-- A digit opens a number and nothing else. -/
theorem scan_digit {c : Char} (hc : isDigit c = true) (cs : List Char) :
    Lexer.scan c cs = Lexer.scanNumber c cs := by
  have hslash : (c == '/') = false := beq_eq_false_iff_ne.2 (ne_of_isDigit hc (by decide))
  simp only [Lexer.scan, isGap_of_isDigit hc, hslash, isNameStart_of_isDigit hc, hc,
    Bool.false_and, Bool.false_eq_true, if_false, if_true]

/-- A number that does not go on with a letter is a decimal one. -/
theorem scanNumber_eq {c : Char} {cs : List Char} (hcs : ∀ x ∈ cs.head?, isLetter x = false) :
    Lexer.scanNumber c cs = Lexer.scanDecimal c cs := by
  unfold Lexer.scanNumber
  split
  · exact absurd (hcs 'x' rfl) (by decide)
  · exact absurd (hcs 'X' rfl) (by decide)
  · rfl

/-- What may stand behind an integer: no character that a name goes on with, and no point. -/
def EndsInteger (rest : List Char) : Prop := ∀ c ∈ rest.head?, isNameChar c = false ∧ c ≠ '.'

section

variable {rest : List Char} (hrest : EndsInteger rest)

include hrest

/-- Letters and digits are among the characters that a name goes on with. -/
theorem EndsInteger.noneOf {p : Char → Bool} (hp : ∀ c, p c = true → isNameChar c = true) :
    ∀ c ∈ rest.head?, p c = false := by
  intro c hc
  rw [← Bool.not_eq_true]
  intro hpc
  exact absurd ((hp c hpc).symm.trans (hrest c hc).1) (by decide)

/-- Digits end before what ends an integer. -/
theorem scan_decimal {c : Char} {cs : List Char} (hc : isDigit c = true)
    (hcs : ∀ x ∈ cs, isDigit x = true) :
    Lexer.scan c (cs ++ rest) = ⟨.token .integer (String.ofList (c :: cs)), c :: cs, rest⟩ := by
  have hsecond : ∀ x ∈ (cs ++ rest).head?, isLetter x = false := by
    intro x hx
    cases cs with
    | nil => exact hrest.noneOf (fun d hd => by simp [isNameChar, hd]) x hx
    | cons d cs =>
      cases hx
      exact isLetter_of_isDigit (hcs _ List.mem_cons_self)
  obtain ⟨htake, hdrop⟩ := split_run hcs
    (hrest.noneOf (p := isDigit) fun d hd => by simp [isNameChar, hd])
  rw [scan_digit hc, scanNumber_eq hsecond]
  unfold Lexer.scanDecimal
  dsimp only
  rw [htake, hdrop]
  split
  · exact absurd rfl (hrest '.' rfl).2
  · rfl

/-- So do hexadecimal digits behind `0x`. -/
theorem scan_hex {x : Char} {ds : List Char} (hx : x = 'x' ∨ x = 'X') (hne : ds ≠ [])
    (hds : ∀ d ∈ ds, Lexer.isHexDigit d = true) :
    Lexer.scan '0' (x :: ds ++ rest) =
      ⟨.token .integer (String.ofList ('0' :: x :: ds)), '0' :: x :: ds, rest⟩ := by
  obtain ⟨htake, hdrop⟩ := split_run hds (hrest.noneOf fun _ => isNameChar_of_isHexDigit)
  have hsome : ds.isEmpty = false := by simpa using hne
  have hscan : Lexer.scan '0' (x :: ds ++ rest) = Lexer.scanHex x (ds ++ rest) := by
    rw [scan_digit (by decide)]
    rcases hx with rfl | rfl <;> rfl
  rw [hscan]
  unfold Lexer.scanHex
  dsimp only
  rw [htake, hdrop]
  simp only [hsome, Bool.false_eq_true, if_false]

/-- What is written by the lexical rules of integers is scanned as an integer. -/
theorem scan_integer {text : List Char} (h : TokenKind.Shape .integer text) :
    ∃ c cs, text = c :: cs ∧
      Lexer.scan c (cs ++ rest) = ⟨.token .integer (String.ofList text), text, rest⟩ := by
  cases h with
  | decimal hne hds =>
    obtain ⟨c, cs, rfl⟩ := List.exists_cons_of_ne_nil hne
    obtain ⟨hc, hcs⟩ := List.forall_mem_cons.1 hds
    exact ⟨c, cs, rfl, scan_decimal hrest hc hcs⟩
  | @hex x ds hx hne hds => exact ⟨'0', x :: ds, rfl, scan_hex hrest hx hne hds⟩

end

/-! ## What follows a lexeme -/

/-- What may stand behind a lexeme: nothing, or a space. -/
def Spaced (rest : List Char) : Prop := ∀ c ∈ rest.head?, c = ' '

section

variable {rest : List Char} (hrest : Spaced rest)

include hrest

theorem Spaced.stops {p : Char → Bool} (hp : p ' ' = false) : ∀ c ∈ rest.head?, p c = false := by
  intro c hc
  rw [hrest c hc]
  exact hp

theorem Spaced.endsInteger : EndsInteger rest := by
  intro c hc
  rw [hrest c hc]
  decide

/-! ## Names and marks -/

/-- A text that is formed like a name, whether it is one or a keyword. -/
theorem scan_word {c : Char} {cs : List Char} (hc : isNameStart c = true)
    (hcs : ∀ d ∈ cs, isNameChar d = true) :
    Lexer.scan c (cs ++ rest) =
      ⟨.token ((Keyword.ofSpelling? (String.ofList (c :: cs))).elim .ident .keyword)
        (String.ofList (c :: cs)), c :: cs, rest⟩ := by
  have hgap : isGap c = false := by
    cases hg : isGap c with
    | false => rfl
    | true =>
      simp only [isGap, Bool.or_eq_true, beq_iff_eq] at hg
      rcases hg with ((rfl | rfl) | rfl) | rfl <;> exact absurd hc (by decide)
  have hslash : (c == '/') = false := by
    cases hs : c == '/' with
    | false => rfl
    | true => exact absurd hc (eq_of_beq hs ▸ by decide)
  obtain ⟨htake, hdrop⟩ := split_run hcs (hrest.stops (by decide))
  simp only [Lexer.scan, hgap, hslash, hc, Bool.false_and, Bool.false_eq_true, if_false, if_true,
    Lexer.scanName, htake, hdrop]
  cases Keyword.ofSpelling? (String.ofList (c :: cs)) <;> rfl

theorem scan_mark (m : Mark) {c : Char} {cs : List Char} (hm : m.chars = c :: cs) :
    Lexer.scan c (cs ++ rest) = ⟨.token (.mark m) m.spelling, c :: cs, rest⟩ := by
  obtain ⟨hgap, hname, hdigit, hquote⟩ : isGap c = false ∧ isNameStart c = false ∧
      isDigit c = false ∧ (c == '"') = false := by
    have hall : m.chars.head?.all (fun c => !isGap c && !isNameStart c && !isDigit c && c != '"') =
        true := by
      cases m <;> decide
    simpa [hm, and_assoc] using hall
  have hsecond : ∀ x ∈ (cs ++ rest).head?, x ≠ '/' ∧ x ≠ '*' ∧ isDigit x = false := by
    intro x hx
    cases cs with
    | nil =>
      rw [hrest x hx]
      decide
    | cons d cs =>
      have hall : m.chars.tail.head?.all (fun x => x != '/' && x != '*' && !isDigit x) = true := by
        cases m <;> decide
      cases hx
      simpa [hm, and_assoc] using hall
  have hslash {x : Char} (hx : x = '/' ∨ x = '*') :
      (c == '/' && (cs ++ rest).head? == some x) = false := by
    rw [Bool.and_eq_false_iff, beq_eq_false_iff_ne (a := (cs ++ rest).head?)]
    refine .inr fun h => ?_
    obtain ⟨h1, h2, -⟩ := hsecond x (by rw [h]; rfl)
    exact hx.elim h1 h2
  have hpoint : (c == '.' && Lexer.startsWithDigit (cs ++ rest)) = false := by
    rw [Bool.and_eq_false_iff]
    right
    cases h : cs ++ rest with
    | nil => rfl
    | cons x more => exact (hsecond x (by rw [h]; rfl)).2.2
  have hlongest : Mark.longest? c (cs ++ rest) = some m := by
    cases rest with
    | nil => cases m <;> cases hm <;> rfl
    | cons x rest =>
      cases hrest x rfl
      cases m <;> cases hm <;> rfl
  have hlen : m.chars.length - 1 = cs.length := by simp [hm]
  simp only [Lexer.scan, hgap, hname, hdigit, hquote, hslash (.inl rfl), hslash (.inr rfl), hpoint,
    Bool.false_eq_true, if_false, Lexer.scanMark, hlongest, hlen, List.take_left, List.drop_left]

/-! ## Reals -/

/-- The digits behind a point end before a space, and no other point follows them. -/
theorem scanFraction_written (whole : List Char) {part : List Char}
    (hpart : ∀ x ∈ part, isDigit x = true) :
    Lexer.scanFraction whole (part ++ rest) =
      ⟨.token .real (String.ofList (whole ++ '.' :: part)), whole ++ '.' :: part, rest⟩ := by
  obtain ⟨htake, hdrop⟩ := split_run hpart (hrest.stops (by decide))
  unfold Lexer.scanFraction
  dsimp only
  rw [htake, hdrop]
  split
  · exact absurd (hrest '.' rfl) (by decide)
  · rfl

/-- A point with digits on both sides. -/
theorem scan_real {c : Char} {whole part : List Char} (hc : isDigit c = true)
    (hwhole : ∀ x ∈ whole, isDigit x = true) (hpart : ∀ x ∈ part, isDigit x = true) :
    Lexer.scan c (whole ++ '.' :: part ++ rest) =
      ⟨.token .real (String.ofList (c :: whole ++ '.' :: part)), c :: whole ++ '.' :: part,
        rest⟩ := by
  have hsecond : ∀ x ∈ (whole ++ '.' :: (part ++ rest)).head?, isLetter x = false := by
    intro x hx
    cases whole with
    | nil =>
      cases hx
      decide
    | cons d whole =>
      cases hx
      exact isLetter_of_isDigit (hwhole _ List.mem_cons_self)
  have hpoint : ∀ x ∈ ('.' :: (part ++ rest)).head?, isDigit x = false := by
    rintro x ⟨⟩
    decide
  obtain ⟨htake, hdrop⟩ := split_run hwhole hpoint
  rw [List.append_assoc, List.cons_append, scan_digit hc, scanNumber_eq hsecond]
  unfold Lexer.scanDecimal
  rw [htake, hdrop]
  exact scanFraction_written hrest (c :: whole) hpart

/-- A point in front of digits. -/
theorem scan_point {part : List Char} (hne : part ≠ []) (hpart : ∀ x ∈ part, isDigit x = true) :
    Lexer.scan '.' (part ++ rest) =
      ⟨.token .real (String.ofList ('.' :: part)), '.' :: part, rest⟩ := by
  have hdigit : Lexer.startsWithDigit (part ++ rest) = true := by
    cases part with
    | nil => exact absurd rfl hne
    | cons d part => exact hpart d List.mem_cons_self
  have hname : isNameStart '.' = false := by decide
  have hself : isDigit '.' = false := by decide
  have hscan : Lexer.scan '.' (part ++ rest) = Lexer.scanFraction [] (part ++ rest) := by
    simp [Lexer.scan, isGap, hname, hself, hdigit]
  rw [hscan]
  exact scanFraction_written hrest [] hpart

/-! ## Strings -/

omit hrest in
/-- The inside of a string is read back to the closing quote. -/
theorem scanContents_escape (s rest : List Char) :
    Lexer.scanContents (s.flatMap escape ++ '"' :: rest) =
      ⟨s.flatMap escape ++ ['"'], rest, .ok s⟩ := by
  induction s with
  | nil => rfl
  | cons c s ih =>
    have written {cs : List Char} (hcs : escape c = cs)
        (hstep : ∀ more, Lexer.scanContents (cs ++ more) = (Lexer.scanContents more).push cs c) :
        Lexer.scanContents ((c :: s).flatMap escape ++ '"' :: rest) =
          ⟨(c :: s).flatMap escape ++ ['"'], rest, .ok (c :: s)⟩ := by
      rw [List.flatMap_cons, hcs, List.append_assoc, hstep, ih]
      simp [Lexer.Contents.push, Except.map]
    by_cases hn : c = '\n'
    · subst hn; exact written rfl fun _ => rfl
    by_cases hr : c = '\r'
    · subst hr; exact written rfl fun _ => rfl
    by_cases ht : c = '\t'
    · subst ht; exact written rfl fun _ => rfl
    by_cases hb : c = '\x08'
    · subst hb; exact written rfl fun _ => rfl
    by_cases hslash : c = '\\'
    · subst hslash; exact written rfl fun _ => rfl
    by_cases hquote : c = '"'
    · subst hquote; exact written rfl fun _ => rfl
    have hplain : escape c = [c] := by simp [escape, *]
    refine written hplain fun more => ?_
    rw [List.singleton_append, Lexer.scanContents]
    · simp [hn, hquote]
    · exact fun h => absurd h hslash
    · exact fun _ _ h => absurd h hslash

omit hrest in
theorem scan_string (s : String) (rest : List Char) :
    Lexer.scan '"' (s.toList.flatMap escape ++ '"' :: rest) =
      ⟨.token .string s, (string s).text, rest⟩ := by
  have hname : isNameStart '"' = false := by decide
  have hdigit : isDigit '"' = false := by decide
  have hscan (cs : List Char) : Lexer.scan '"' cs = Lexer.scanString cs := by
    simp [Lexer.scan, isGap, hname, hdigit]
  rw [hscan, Lexer.scanString, scanContents_escape]
  simp

end

end Lexeme

open Lexeme (Spaced) in
/-- What is written by the lexical rules of its kind is scanned as what it is. -/
theorem TokenKind.Shape.scan {kind : TokenKind} {lexeme : List Char} (h : kind.Shape lexeme)
    (hstring : kind ≠ .string) (hvalid : kind ≠ .invalid) {rest : List Char}
    (hrest : Spaced rest) :
    ∃ c cs, lexeme = c :: cs ∧
      Lexer.scan c (cs ++ rest) = ⟨.token kind (String.ofList lexeme), lexeme, rest⟩ := by
  cases h with
  | @name c cs hc hcs hword =>
    refine ⟨c, cs, rfl, ?_⟩
    rw [Lexeme.scan_word hrest hc hcs, hword]
    rfl
  | keyword k =>
    obtain ⟨c, cs, hk, hc, hcs⟩ : ∃ c cs, k.spelling.toList = c :: cs ∧ isNameStart c = true ∧
        ∀ d ∈ cs, isNameChar d = true := by
      cases k <;> exact ⟨_, _, rfl, by decide, List.all_eq_true.1 (by decide)⟩
    refine ⟨c, cs, hk, ?_⟩
    rw [Lexeme.scan_word hrest hc hcs, ← hk, String.ofList_toList, Keyword.ofSpelling?_spelling]
    rfl
  | decimal hne hds => exact Lexeme.scan_integer hrest.endsInteger (.decimal hne hds)
  | hex hx hne hds => exact Lexeme.scan_integer hrest.endsInteger (.hex hx hne hds)
  | @real whole part hne hds =>
    obtain ⟨hwhole, hpart⟩ := List.forall_mem_append.1 hds
    cases whole with
    | nil => exact ⟨'.', part, rfl, Lexeme.scan_point hrest hne hpart⟩
    | cons c whole =>
      obtain ⟨hc, hwhole⟩ := List.forall_mem_cons.1 hwhole
      exact ⟨c, whole ++ '.' :: part, rfl, Lexeme.scan_real hrest hc hwhole hpart⟩
  | string _ => exact absurd rfl hstring
  | mark m =>
    obtain ⟨c, cs, hm⟩ : ∃ c cs, m.chars = c :: cs := by cases m <;> exact ⟨_, _, rfl⟩
    refine ⟨c, cs, hm, ?_⟩
    rw [Lexeme.scan_mark hrest m hm, ← hm]
    rfl
  | invalid => exact absurd rfl hvalid

namespace Lexeme

theorem text_of_ne_string {l : Lexeme} (h : l.kind ≠ .string) : l.text = l.value.toList := by
  obtain ⟨kind, value⟩ := l
  cases kind with
  | string => exact absurd rfl h
  | _ => rfl

/-- What is written for a lexeme is scanned as that lexeme. -/
theorem Formed.scan {l : Lexeme} (h : l.Formed) {rest : List Char} (hrest : Spaced rest) :
    ∃ c cs, l.text = c :: cs ∧
      Lexer.scan c (cs ++ rest) = ⟨.token l.kind l.value, l.text, rest⟩ := by
  by_cases hk : l.kind = .string
  · obtain ⟨kind, value⟩ := l
    cases hk
    refine ⟨'"', value.toList.flatMap escape ++ ['"'], rfl, ?_⟩
    rw [List.append_assoc]
    exact scan_string value rest
  · obtain ⟨c, cs, htext, hscan⟩ := (h.shape hk).scan hk h.valid hrest
    rw [text_of_ne_string hk]
    rw [String.ofList_toList] at hscan
    exact ⟨c, cs, htext, hscan⟩

/-! ## Texts -/

theorem texts_cons (l : Lexeme) (ls : List Lexeme) :
    ∃ rest, texts (l :: ls) = l.text ++ rest ∧ Spaced rest ∧
      (rest = [] ∧ ls = [] ∨ rest = ' ' :: texts ls) := by
  cases ls with
  | nil => exact ⟨[], by simp [texts, List.intercalate], nofun, .inl ⟨rfl, rfl⟩⟩
  | cons l' ls =>
    refine ⟨' ' :: texts (l' :: ls), by simp [texts, List.intercalate], fun c hc => ?_, .inr rfl⟩
    cases hc
    rfl

/-- The tokens of a written text are those that it was made of. -/
theorem steps_scanFrom {ls : List Lexeme} (h : ∀ l ∈ ls, l.Formed) {n : Nat} (p : Position)
    (hn : (texts ls).length ≤ n) : ∃ ts : List Token,
      (TokenStream.scanFrom n p (texts ls)).steps = ts.map .ok ∧ ts.map Token.lexeme = ls := by
  induction ls generalizing n p with
  | nil => cases n <;> exact ⟨[], rfl, rfl⟩
  | cons l ls ih =>
    obtain ⟨rest, htexts, hrest, hmore⟩ := texts_cons l ls
    obtain ⟨c, cs, htext, hscan⟩ := (h l List.mem_cons_self).scan hrest
    rw [htexts, htext] at hn ⊢
    obtain ⟨n, rfl⟩ := Nat.exists_eq_succ_of_ne_zero (n := n) (by rintro rfl; simp at hn)
    have hlater : ∀ q, ∃ ts : List Token,
        (TokenStream.scanFrom n q rest).steps = ts.map .ok ∧ ts.map Token.lexeme = ls := by
      intro q
      rcases hmore with ⟨rfl, rfl⟩ | rfl
      · cases n <;> exact ⟨[], rfl, rfl⟩
      · obtain ⟨n, rfl⟩ := Nat.exists_eq_succ_of_ne_zero (n := n) (by rintro rfl; simp at hn)
        refine ih (fun l hl => h l (List.mem_cons_of_mem _ hl)) (q.advance [' ']) ?_
        simp only [List.length_append, List.length_cons] at hn
        omega
    rw [List.cons_append, TokenStream.scanFrom, hscan]
    obtain ⟨ts, hts, hls⟩ := hlater (p.advance l.text)
    exact ⟨⟨l.kind, l.value, p⟩ :: ts, congrArg _ hts, congrArg _ hls⟩

theorem steps_ofChars {ls : List Lexeme} (h : ∀ l ∈ ls, l.Formed) : ∃ ts : List Token,
    (TokenStream.ofChars (texts ls)).steps = ts.map .ok ∧ ts.map Token.lexeme = ls :=
  steps_scanFrom h .start (Nat.le_refl _)

end Lexeme

/-- Steps without a fault are tokens up to the end. -/
theorem TokenStream.tokens_of_steps {s : TokenStream} {ts : List Token}
    (h : s.steps = ts.map .ok) : s.tokens = (ts ++ [.endAt s.stop], none) := by
  have go (us : List Token) :
      tokens.go s (us.map .ok) = (us ++ [.endAt s.stop], none) := by
    induction us with
    | nil => rfl
    | cons u us ih => simp [tokens.go, ih]
  rw [tokens, h, go]

/-- Lexing undoes writing. If lexemes are written with single spaces between them, strings quoted
and escaped, then the tokens of the text have the same kinds and values, in the same order, and the
end of the source follows them. -/
theorem lexing_undoes_writing {ls : List Lexeme} (h : ∀ l ∈ ls, l.Formed) :
    (TokenStream.ofChars (Lexeme.texts ls)).tokens.1.map Token.lexeme =
        ls ++ [⟨.endOfSource, ""⟩] ∧
      (TokenStream.ofChars (Lexeme.texts ls)).tokens.2 = none := by
  obtain ⟨ts, hsteps, hls⟩ := Lexeme.steps_ofChars h
  rw [TokenStream.tokens_of_steps hsteps, List.map_append, hls]
  exact ⟨rfl, rfl⟩

/-- Slashes that open no comment, a string that looks like one, points on either side of digits, and
digits that are no decimal ones. -/
def Lexeme.entangled : List Lexeme :=
  [.mark .div, .mark .divAssign, .string "// \"\\\n/*", .mark .mul, .mark .div, ⟨.real, ".5"⟩,
    .mark .dot, ⟨.integer, "5"⟩, ⟨.real, "1."⟩, ⟨.integer, "0Xf"⟩, ⟨.integer, "²٣"⟩,
    .keyword .return, .name "return²"]

theorem lexing_undoes_writing_entangled :
    Lexeme.texts Lexeme.entangled =
        "/ /= \"// \\\"\\\\\\n/*\" * / .5 . 5 1. 0Xf ²٣ return return²".toList ∧
      (TokenStream.ofChars (Lexeme.texts Lexeme.entangled)).tokens.1.map Token.lexeme =
        Lexeme.entangled ++ [⟨.endOfSource, ""⟩] := by
  refine ⟨by decide, (lexing_undoes_writing ?_).1⟩
  have hdigits {cs : List Char} (h : cs.all isDigit = true) : ∀ c ∈ cs, isDigit c = true :=
    List.all_eq_true.1 h
  have hname : Lexeme.Formed (.name "return²") :=
    ⟨nofun, fun _ => .name (by decide) (List.all_eq_true.1 (by decide)) (by decide)⟩
  simp only [Lexeme.entangled, List.forall_mem_cons]
  exact ⟨⟨nofun, fun _ => .mark .div⟩, ⟨nofun, fun _ => .mark .divAssign⟩,
    ⟨nofun, fun h => absurd rfl h⟩, ⟨nofun, fun _ => .mark .mul⟩, ⟨nofun, fun _ => .mark .div⟩,
    ⟨nofun, fun _ => @TokenKind.Shape.real [] ['5'] (by decide) (hdigits (by decide))⟩,
    ⟨nofun, fun _ => .mark .dot⟩,
    ⟨nofun, fun _ => .decimal (by decide) (hdigits (by decide))⟩,
    ⟨nofun, fun _ => @TokenKind.Shape.real ['1'] [] (by decide) (hdigits (by decide))⟩,
    ⟨nofun, fun _ => .hex (.inr rfl) (by decide) (List.all_eq_true.1 (by decide))⟩,
    ⟨nofun, fun _ => .decimal (by decide) (hdigits (by decide))⟩,
    ⟨nofun, fun _ => .keyword .return⟩, hname, nofun⟩

end CellScript
