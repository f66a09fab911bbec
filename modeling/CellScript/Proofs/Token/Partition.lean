import CellScript.Proofs.Token.Driven

/-!
# Tokens partition their text

A text is cut into blanks, comments and the lexemes of its tokens, in order and without a character
left over, up to its end or its first fault. Every token stands on the line and in the column that
one counts over the characters before it.

* `Position.counted`, `Position.counted_append`: places by counting and by moving;
* `Part`, `Part.AllStand`: the parts of a text, each by the lexical rules and at its place;
* `TokenStream.scanFrom_partition`: what the pieces scanned from a place on make up;
* `TokenStream.tokens_partition`: what the tokens of a text make up, and that reading them
  character by character never moves beyond the end.
-/

namespace CellScript

/-! ## Places -/

/-- The place behind a text: one line more than it has newlines, and one column more than it has
characters behind the last of them. -/
def Position.counted (before : List Char) : Position :=
  ⟨1 + before.count '\n', 1 + (before.reverse.takeWhile (· != '\n')).length⟩

theorem Position.counted_concat (before : List Char) (c : Char) :
    counted (before ++ [c]) = (counted before).step c := by
  by_cases hc : c = '\n'
  · simp [counted, step, hc]
    omega
  · simp [counted, step, hc]
    omega

theorem Position.counted_append (before cs : List Char) :
    counted (before ++ cs) = (counted before).advance cs := by
  induction cs generalizing before with
  | nil => simp [advance]
  | cons c cs ih =>
    have hsplit : before ++ c :: cs = before ++ [c] ++ cs := by simp
    rw [hsplit, ih, counted_concat]
    rfl

/-! ## Parts of a text -/

/-- A part of a text: a blank or comment, or the characters of a token. -/
inductive Part
  | gap (chars : List Char)
  | lexeme (chars : List Char) (token : Token)

namespace Part

/-- The characters of a part. -/
def chars : Part → List Char
  | gap cs => cs
  | lexeme cs _ => cs

/-- The token of a part. -/
def token? : Part → Option Token
  | gap _ => none
  | lexeme _ t => some t

/-- A part between the characters before and behind it keeps to the lexical rules. A token has at
least one character, and its line and column are counted over the characters before it. -/
def Stands (before : List Char) (p : Part) (behind : List Char) : Prop :=
  match p with
  | gap cs => GapPiece cs behind
  | lexeme cs t => cs ≠ [] ∧ t.kind.WrittenAs t.value cs ∧
      t.place.line = 1 + before.count '\n' ∧
      t.place.column = 1 + (before.reverse.takeWhile (· != '\n')).length

/-- All parts of a text keep to the rules where they stand. -/
def AllStand : (before : List Char) → List Part → (rest : List Char) → Prop
  | _, [], _ => True
  | before, p :: ps, rest =>
    p.Stands before (ps.flatMap chars ++ rest) ∧ AllStand (before ++ p.chars) ps rest

end Part

/-! ## Cutting a text -/

namespace TokenStream

/-- Behind the characters and tokens read so far, either the source ends and the end is the last
token, or a fault stands there and is reported on its line. -/
def EndsIn (passed : List Char) (ts : List Token) (rest : List Char) :
    List Token × Option LexError → Prop
  | (us, none) => rest = [] ∧ us = ts ++ [.endAt (.counted passed)]
  | (us, some e) => us = ts ∧ e.fault.Stands rest ∧ e.line = 1 + passed.count '\n'

theorem EndsIn.cons {passed rest : List Char} {ts : List Token} {r : List Token × Option LexError}
    (h : EndsIn passed ts rest r) (t : Token) : EndsIn passed (t :: ts) rest (t :: r.1, r.2) := by
  obtain ⟨us, e⟩ := r
  cases e with
  | none => exact ⟨h.1, congrArg (t :: ·) h.2⟩
  | some e => exact ⟨congrArg (t :: ·) h.1, h.2⟩

/-- The pieces scanned from a place on partition the text up to its first fault. -/
theorem scanFrom_partition {n : Nat} (before : List Char) {cs : List Char} (hn : cs.length ≤ n) :
    ∃ parts rest, cs = parts.flatMap Part.chars ++ rest ∧ Part.AllStand before parts rest ∧
      EndsIn (before ++ parts.flatMap Part.chars) (parts.filterMap Part.token?) rest
        (scanFrom n (.counted before) cs).tokens := by
  induction n generalizing before cs with
  | zero =>
    cases List.length_eq_zero_iff.1 (Nat.le_zero.1 hn)
    exact ⟨[], [], rfl, trivial, rfl, by simp [scanFrom]⟩
  | succ n ih =>
    cases cs with
    | nil => exact ⟨[], [], rfl, trivial, rfl, by simp [scanFrom]⟩
    | cons x xs =>
      have hlength := Lexer.scan_rest_length x xs
      have happend := Lexer.scan_append x xs
      have hne := Lexer.scan_lexeme_ne_nil x xs
      have hright := Lexer.scan_right x xs
      rw [List.length_cons] at hn
      have hrest : (Lexer.scan x xs).rest.length ≤ n := by omega
      obtain ⟨parts, rest, hparts, hstand, hends⟩ := ih (before ++ (Lexer.scan x xs).lexeme) hrest
      have hsplit : x :: xs = (Lexer.scan x xs).lexeme ++ parts.flatMap Part.chars ++ rest := by
        rw [List.append_assoc, ← hparts, happend]
      rw [Position.counted_append, List.append_assoc] at hends
      unfold scanFrom
      unfold Lexer.Scan.Right at hright
      dsimp only
      cases hpiece : (Lexer.scan x xs).piece with
      | gap =>
        rw [hpiece, hparts] at hright
        exact ⟨.gap (Lexer.scan x xs).lexeme :: parts, rest, hsplit, ⟨hright, hstand⟩, hends⟩
      | token kind value =>
        rw [hpiece] at hright
        rw [tokens_cons_ok]
        exact ⟨.lexeme (Lexer.scan x xs).lexeme ⟨kind, value, .counted before⟩ :: parts, rest,
          hsplit, ⟨⟨hne, hright, rfl, rfl⟩, hstand⟩, hends.cons _⟩
      | fault f =>
        rw [hpiece, happend] at hright
        exact ⟨[], x :: xs, rfl, trivial, rfl, hright, by simp [Position.counted]⟩

/-- Lexing partitions the source. Every text is a sequence of blanks, comments and lexemes, each by
the lexical rules and at its place, and what is left behind them: nothing, where the source ends, or
else a fault. Reading the text character by character gives exactly the tokens of these lexemes,
then the end of the source or the fault, and never moves beyond the end. -/
theorem tokens_partition (text : List Char) :
    ∃ (parts : List Part) (rest : List Char),
      text = parts.flatMap Part.chars ++ rest ∧ Part.AllStand [] parts rest ∧
      EndsIn (parts.flatMap Part.chars) (parts.filterMap Part.token?) rest (ofChars text).tokens ∧
      (∀ ts e, Read.Lexes (.ofList text) ts e ↔ (ofChars text).tokens = (ts, e)) ∧
      ∀ c message d, Read.nextToken c ≠ .error (.pastEnd message) d := by
  obtain ⟨parts, rest, hparts, hstand, hends⟩ := scanFrom_partition [] (Nat.le_refl text.length)
  exact ⟨parts, rest, hparts, hstand, hends, Read.lexes_iff text, Read.nextToken_ne_pastEnd⟩

end TokenStream

end CellScript
