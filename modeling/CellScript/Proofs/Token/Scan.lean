import CellScript.Token.Lexer

/-!
# Pieces of a text

A piece and the rest make up the text that was scanned, and a piece has at least one character, so
scanning a text takes no more turns than the text has characters.

* `Lexer.scan_append`, `Lexer.scan_rest_length`: nothing is lost, and something is taken;
* `TokenStream.scanFrom_of_le`: more turns than that change nothing.
-/

namespace CellScript

namespace Lexer

theorem splitComment_append {cs body rest : List Char} (h : splitComment cs = some (body, rest)) :
    body ++ rest = cs := by
  fun_induction splitComment cs generalizing body rest with
  | case1 => cases h
  | case2 =>
    cases h
    rfl
  | case3 c cs _ ih =>
    obtain ⟨⟨body', rest'⟩, hsplit, heq⟩ := Option.map_eq_some_iff.1 h
    cases heq
    rw [List.cons_append, ih hsplit]

theorem scanContents_append (cs : List Char) :
    (scanContents cs).lexeme ++ (scanContents cs).rest = cs := by
  fun_induction scanContents cs with
  | case1 => rfl
  | case2 => rfl
  | case3 e rest c _ ih => simpa [Contents.push] using ih
  | case4 => rfl
  | case5 c rest _ _ h => simp_all
  | case6 => rfl
  | case7 c rest _ _ _ _ ih => simpa [Contents.push] using ih

theorem scanFraction_append (whole cs : List Char) :
    (scanFraction whole cs).lexeme ++ (scanFraction whole cs).rest = whole ++ '.' :: cs := by
  unfold scanFraction
  dsimp only
  split
  · next rest h => simp [← h, List.takeWhile_append_dropWhile]
  · simp [List.takeWhile_append_dropWhile]

theorem scanNumber_append (c : Char) (cs : List Char) :
    (scanNumber c cs).lexeme ++ (scanNumber c cs).rest = c :: cs := by
  unfold scanNumber
  split
  · simp [scanHex, List.takeWhile_append_dropWhile]
  · simp [scanHex, List.takeWhile_append_dropWhile]
  · unfold scanDecimal
    dsimp only
    split
    · next rest h =>
      rw [scanFraction_append, ← h, List.cons_append, List.takeWhile_append_dropWhile]
    · simp [List.takeWhile_append_dropWhile]

theorem scanMark_append (c : Char) (cs : List Char) :
    (scanMark c cs).lexeme ++ (scanMark c cs).rest = c :: cs := by
  unfold scanMark
  split
  · simp
  · rfl

/-- The piece and the rest make up the text. -/
theorem scan_append (c : Char) (cs : List Char) :
    (scan c cs).lexeme ++ (scan c cs).rest = c :: cs := by
  have second {d : Char} (h : (c == '/' && cs.head? == some d) = true) :
      c = '/' ∧ cs = d :: cs.tail := by
    rw [Bool.and_eq_true, beq_iff_eq, beq_iff_eq] at h
    cases cs with
    | nil => cases h.2
    | cons d' rest =>
      cases h.2
      exact ⟨h.1, rfl⟩
  unfold scan
  split
  · rfl
  split
  · next h =>
    obtain ⟨hc, hcs⟩ := second h
    rw [hc, hcs]
    simp [scanLineComment, List.takeWhile_append_dropWhile]
  split
  · next h =>
    obtain ⟨hc, hcs⟩ := second h
    unfold scanBlockComment
    split
    · next body rest hsplit => rw [hc, hcs, List.cons_append, List.cons_append,
        splitComment_append hsplit]
    · rw [hc, hcs]
      simp
  split
  · simp [scanName, List.takeWhile_append_dropWhile]
  split
  · exact scanNumber_append c cs
  split
  · next h =>
    rw [Bool.and_eq_true, beq_iff_eq] at h
    rw [scanFraction_append, h.1, List.nil_append]
  split
  · next h => rw [eq_of_beq h, scanString, List.cons_append, scanContents_append]
  · exact scanMark_append c cs

theorem scanFraction_lexeme_ne_nil (whole cs : List Char) :
    (scanFraction whole cs).lexeme ≠ [] := by
  unfold scanFraction
  dsimp only
  split <;> simp

theorem scanNumber_lexeme_ne_nil (c : Char) (cs : List Char) : (scanNumber c cs).lexeme ≠ [] := by
  unfold scanNumber
  split
  · exact List.cons_ne_nil _ _
  · exact List.cons_ne_nil _ _
  · unfold scanDecimal
    dsimp only
    split
    · exact scanFraction_lexeme_ne_nil _ _
    · exact List.cons_ne_nil _ _

/-- Every piece has a character. -/
theorem scan_lexeme_ne_nil (c : Char) (cs : List Char) : (scan c cs).lexeme ≠ [] := by
  unfold scan
  split
  · exact List.cons_ne_nil _ _
  split
  · exact List.cons_ne_nil _ _
  split
  · unfold scanBlockComment
    split <;> exact List.cons_ne_nil _ _
  split
  · exact List.cons_ne_nil _ _
  split
  · exact scanNumber_lexeme_ne_nil c cs
  split
  · exact scanFraction_lexeme_ne_nil [] cs
  split
  · exact List.cons_ne_nil _ _
  · unfold scanMark
    split <;> exact List.cons_ne_nil _ _

/-- Every piece leaves less than the text. -/
theorem scan_rest_length (c : Char) (cs : List Char) : (scan c cs).rest.length ≤ cs.length := by
  have happend := congrArg List.length (scan_append c cs)
  have hpos := List.length_pos_iff.2 (scan_lexeme_ne_nil c cs)
  simp only [List.length_append, List.length_cons] at happend
  omega

end Lexer

namespace TokenStream

/-- As many turns as there are characters are enough. -/
theorem scanFrom_of_le {n m : Nat} (p : Position) {cs : List Char}
    (hn : cs.length ≤ n) (hm : cs.length ≤ m) : scanFrom n p cs = scanFrom m p cs := by
  induction n generalizing m p cs with
  | zero =>
    cases List.length_eq_zero_iff.1 (Nat.le_zero.1 hn)
    cases m <;> rfl
  | succ n ih =>
    cases cs with
    | nil => cases m <;> rfl
    | cons c cs =>
      obtain ⟨m, rfl⟩ := Nat.exists_eq_succ_of_ne_zero (n := m) (by rintro rfl; simp at hm)
      have hrest := Lexer.scan_rest_length c cs
      simp only [List.length_cons] at hn hm
      unfold scanFrom
      dsimp only
      rw [ih (p.advance (Lexer.scan c cs).lexeme) (by omega) (m := m) (by omega)]

/-- Of a stream only the place of its end counts for the tokens of some steps. -/
theorem go_of_stop {s u : TokenStream} (h : s.stop = u.stop)
    (steps : List (Except LexError Token)) : tokens.go s steps = tokens.go u steps := by
  induction steps with
  | nil => rw [tokens.go, tokens.go, h]
  | cons step steps ih =>
    cases step with
    | error e => rfl
    | ok t => rw [tokens.go, tokens.go, ih]

@[simp] theorem tokens_cons_ok (t : Token) (s : TokenStream) :
    (s.cons (.ok t)).tokens = (t :: s.tokens.1, s.tokens.2) := by
  have hgo := go_of_stop (s := s.cons (.ok t)) (u := s) rfl s.steps
  change (t :: (tokens.go (s.cons (.ok t)) s.steps).1, (tokens.go (s.cons (.ok t)) s.steps).2) = _
  rw [hgo]
  rfl

end TokenStream

end CellScript
