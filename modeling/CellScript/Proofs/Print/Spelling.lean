import CellScript.Proofs.Numeral.Digits
import CellScript.Proofs.Print.Written

/-!
# The lexemes of printed scripts

What the printer writes for a lexeme keeps to the lexical rules, so a printed text has exactly the
lexemes that it was made of.

* `Lexeme.Spelled`: the lexemes that the printer writes;
* `Lexeme.Spelled.formed`: they keep to the rules;
* `Lexeme.integerValue_of_lexeme`: the number of a numeral is the one that it was written for.
-/

namespace CellScript

/-- The text is a name: it begins as one, goes on as one, and is not a keyword. -/
structure IsName (n : String) : Prop where
  chars : ∃ c cs, n.toList = c :: cs ∧ isNameStart c = true ∧ ∀ d ∈ cs, isNameChar d = true
  ident : Keyword.ofSpelling? n = none

/-! ## Numerals -/

/-- The text of a number that is not negative is written like an integer. -/
theorem shape_integerText (n : Nat) : TokenKind.Shape .integer (integerText n).toList := by
  rw [toList_integerText, if_neg (by omega)]
  exact .decimal (toDigits_ne_nil 10 _) (isDigit_of_mem_toDigits _)

/-- So are the digits in base sixteen behind `0x`. -/
theorem IsHexadecimal.shape {n : Nat} {x : Char} {ds : List Char} (hds : IsHexadecimal n ds)
    (hx : x = 'x' ∨ x = 'X') : TokenKind.Shape .integer ('0' :: x :: ds) :=
  .hex hx hds.ne_nil hds.isHexDigit

namespace Lexeme

/-- A numeral is the text of the number, or its digits in base sixteen. -/
theorem numeral_cases (n : Nat) :
    (numeral n = integerText n ∧ digitCount n ≤ maxDigits) ∨
      (numeral n).toList = '0' :: 'x' :: Nat.toDigits 16 n := by
  unfold numeral
  dsimp only
  split
  · next hlen => exact .inl ⟨rfl, hlen⟩
  · exact .inr String.toList_ofList

/-- The number of a numeral is the one that it was written for. -/
theorem integerValue_of_lexeme {t : Token} {n : Nat} (h : t.lexeme = integer n) :
    t.integerValue = .ok n := by
  have hvalue : t.value = numeral n := congrArg Lexeme.value h
  rcases numeral_cases n with ⟨htext, hlen⟩ | htext
  · rw [Token.integerValue_integerText (hvalue.trans htext), if_pos hlen]
  · exact Token.integerValue_hexadecimal (.inl rfl) (hvalue ▸ htext) (isHexadecimal_toDigits n)

/-- A numeral is written like a number. -/
theorem shape_numeral (n : Nat) : TokenKind.Shape .integer (numeral n).toList := by
  rcases numeral_cases n with ⟨htext, -⟩ | htext
  · rw [htext]
    exact shape_integerText n
  · rw [htext]
    exact (isHexadecimal_toDigits n).shape (.inl rfl)

/-! ## Lexemes -/

/-- The lexemes that a printer may write: they are scanned back as what they are. -/
inductive Spelled : Lexeme → Prop
  | mark (m : Mark) : Spelled (.mark m)
  | keyword (k : Keyword) : Spelled (.keyword k)
  | name {n : String} : IsName n → Spelled (.name n)
  | string (s : String) : Spelled (.string s)
  | integer (n : Nat) : Spelled (.integer n)

/-- What a printer writes keeps to the lexical rules. -/
theorem Spelled.formed {l : Lexeme} (h : l.Spelled) : l.Formed := by
  cases h with
  | mark m =>
    refine ⟨nofun, fun _ => ?_⟩
    rw [← text_of_ne_string (l := .mark m) nofun, text_mark]
    exact .mark m
  | keyword k => exact ⟨nofun, fun _ => .keyword k⟩
  | @name n hn =>
    obtain ⟨⟨c, cs, hcs, hstart, hall⟩, hident⟩ := hn
    refine ⟨nofun, fun _ => ?_⟩
    change TokenKind.Shape .ident n.toList
    rw [hcs]
    refine .name hstart hall ?_
    rwa [← hcs, String.ofList_toList]
  | string s => exact ⟨nofun, fun h => absurd rfl h⟩
  | integer n => exact ⟨nofun, fun _ => shape_numeral n⟩

end Lexeme

end CellScript
