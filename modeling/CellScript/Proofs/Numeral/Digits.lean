import CellScript.Numeric.Number
import CellScript.Proofs.Text.Numerals

/-!
# The digits of an integer

An integer is written with the digits of its magnitude, most significant first, and a reader makes
the magnitude out of them again, one digit after the other. The digits in base sixteen may be in
either letter case.

* `ofDigits_toDigits`, `IsHexadecimal.ofDigits_eq`: digits are read as the number whose they are;
* `readInteger_integerText`: so is the text of an integer, unless it has too many digits;
* `Token.integerValue_integerText`, `Token.integerValue_hexadecimal`: so is a token.
-/

namespace CellScript

/-! ## Digits as characters -/

theorem ofDigits_append (base : Nat) (ds : List Nat) (d : Nat) :
    ofDigits base (ds ++ [d]) = ofDigits base ds * base + d := by
  simp [ofDigits]

/-- What the characters of numerals are. -/
theorem digitChar_hex {d : Nat} (hd : d < 16) :
    Lexer.isHexDigit (Nat.digitChar d) = true ∧ hexValue? (Nat.digitChar d) = some d := by
  revert d
  decide

theorem digitChar_decimal {d : Nat} (hd : d < 10) :
    isDigit (Nat.digitChar d) = true ∧ decimalValue? (Nat.digitChar d) = some d := by
  revert d
  decide

section

variable {base : Nat} (hb : 1 < base)

include hb

/-- What holds of the character of each digit holds of the characters of a number. -/
theorem forall_mem_toDigits {P : Char → Prop} (h : ∀ d < base, P (Nat.digitChar d)) (n : Nat) :
    ∀ c ∈ Nat.toDigits base n, P c := by
  induction n using Nat.strongRecOn with
  | ind n ih =>
    rw [Nat.toDigits_eq_if hb]
    split
    · next hn => simpa using h n hn
    · next hn =>
      have hlast : P (Nat.digitChar (n % base)) := h _ (Nat.mod_lt _ (by omega))
      have hfront := ih (n / base) (Nat.div_lt_self (by omega) hb)
      exact List.forall_mem_append.2 ⟨hfront, List.forall_mem_singleton.2 hlast⟩

/-- The digits of a number, read by their values, are the number again. The last digit is the
remainder by the base, and those before it are the digits of the quotient. -/
theorem ofDigits_toDigits {value? : Char → Option Nat}
    (h : ∀ d < base, value? (Nat.digitChar d) = some d) (n : Nat) :
    ofDigits base ((Nat.toDigits base n).filterMap value?) = n := by
  induction n using Nat.strongRecOn with
  | ind n ih =>
    rw [Nat.toDigits_eq_if hb]
    split
    · next hn => simp [h n hn, ofDigits]
    · next hn =>
      have hlast : value? (Nat.digitChar (n % base)) = some (n % base) :=
        h _ (Nat.mod_lt _ (by omega))
      rw [List.filterMap_append, List.filterMap_cons_some hlast, List.filterMap_nil,
        ofDigits_append, ih (n / base) (Nat.div_lt_self (by omega) hb), Nat.div_add_mod']

end

theorem toDigits_ne_nil (base n : Nat) : Nat.toDigits base n ≠ [] :=
  List.length_pos_iff.1 Nat.length_toDigits_pos

/-! ## Base ten -/

theorem isDigit_of_mem_toDigits (n : Nat) : ∀ c ∈ Nat.toDigits 10 n, isDigit c = true :=
  forall_mem_toDigits (by decide) (fun _ hd => (digitChar_decimal hd).1) n

theorem isDecimal_of_mem_toDigits (n : Nat) : ∀ c ∈ Nat.toDigits 10 n, isDecimal c = true :=
  forall_mem_toDigits (by decide) (fun _ hd => Option.isSome_of_mem (digitChar_decimal hd).2) n

theorem length_toDigits_le_iff {n k : Nat} (hk : 0 < k) :
    (Nat.toDigits 10 n).length ≤ k ↔ n < pow10 k :=
  Nat.length_toDigits_le_iff (by decide) hk

/-- An integer may be written exactly if it is below a power of ten. -/
theorem digitCount_le_iff (n : Int) : digitCount n ≤ maxDigits ↔ n.natAbs < pow10 maxDigits :=
  length_toDigits_le_iff (by decide)

theorem toList_integerText (n : Int) :
    (integerText n).toList =
      if n < 0 then '-' :: Nat.toDigits 10 n.natAbs else Nat.toDigits 10 n.natAbs := by
  cases n with
  | ofNat k =>
    rw [if_neg (show ¬ Int.ofNat k < 0 from Int.not_lt.2 (Int.natCast_nonneg k))]
    exact String.toList_ofList
  | negSucc k =>
    rw [if_pos (Int.negSucc_lt_zero k)]
    exact String.toList_ofList

/-- The text of an integer has no white space. -/
theorem isBlank_of_mem_integerText (n : Int) : ∀ c ∈ (integerText n).toList, isBlank c = false := by
  have hdigits : ∀ c ∈ Nat.toDigits 10 n.natAbs, isBlank c = false := fun c hc =>
    isBlank_of_isDigit (isDigit_of_mem_toDigits _ c hc)
  rw [toList_integerText]
  split
  · exact List.forall_mem_cons.2 ⟨by decide, hdigits⟩
  · exact hdigits

theorem trim_integerText (n : Int) : trim (integerText n).toList = (integerText n).toList :=
  trimBy_of_forall (isBlank_of_mem_integerText n)

/-- A minus in front of digits makes a number of them negative, and changes nothing else. -/
theorem readInteger_minus {cs : List Char} (hcs : ∀ c ∈ cs, isDigit c = true) :
    readInteger ('-' :: cs) = (readInteger cs).map Neg.neg := by
  have hpadding : ∀ c ∈ '-' :: cs, isPadding c = false :=
    List.forall_mem_cons.2 ⟨by decide, fun c hc => isPadding_of_isDigit (hcs c hc)⟩
  rw [readInteger_eq hcs]
  unfold readInteger
  rw [trimBy_of_forall hpadding, show splitSign ('-' :: cs) = (true, cs) from rfl]
  dsimp only
  repeat' split
  all_goals rfl

/-- The text of an integer is read as the integer, unless it has too many digits. -/
theorem readInteger_integerText (n : Int) :
    readInteger (integerText n).toList =
      if digitCount n ≤ maxDigits then .ok n else .error (.tooLong (digitCount n)) := by
  have hdigits := readInteger_digits (isDigit_of_mem_toDigits n.natAbs)
    (toDigits_ne_nil 10 n.natAbs) (isDecimal_of_mem_toDigits n.natAbs)
  rw [ofDigits_toDigits (by decide) fun _ hd => (digitChar_decimal hd).2] at hdigits
  change readInteger _ = if maxDigits < digitCount n then .error (.tooLong (digitCount n))
    else .ok (n.natAbs : Int) at hdigits
  rw [toList_integerText]
  split
  · next hneg =>
    rw [readInteger_minus (isDigit_of_mem_toDigits _), hdigits]
    split
    · next hlong => rw [if_neg (Nat.not_le.2 hlong)]; rfl
    · next hfits =>
      rw [if_pos (Nat.not_lt.1 hfits)]
      exact congrArg Except.ok (show -(n.natAbs : Int) = n by omega)
  · next hpos =>
    rw [hdigits]
    split
    · next hlong => rw [if_neg (Nat.not_le.2 hlong)]
    · next hfits =>
      rw [if_pos (Nat.not_lt.1 hfits)]
      exact congrArg Except.ok (by omega)

/-! ## Base sixteen -/

/-- A letter in lower case: the letter between `A` and `Z`, or the character itself. -/
theorem toLower_cases (c : Char) :
    c.toLower = c ∨ 'A'.toNat ≤ c.toNat ∧ c.toNat ≤ 'Z'.toNat := by
  unfold Char.toLower
  split
  · next h => exact .inr h
  · exact .inl rfl

/-- What does not tell the capital letters from the small ones does not tell the case of any
character. -/
theorem apply_toLower {α : Type} {f : Char → α}
    (h : ∀ k < 26, f (Char.ofNat ('A'.toNat + k)).toLower = f (Char.ofNat ('A'.toNat + k)))
    (c : Char) : f c.toLower = f c := by
  rcases toLower_cases c with hself | ⟨hfirst, hlast⟩
  · rw [hself]
  · have hletter : c.toNat < 'A'.toNat + 26 := Nat.lt_succ_of_le hlast
    have hc := h (c.toNat - 'A'.toNat) (Nat.sub_lt_left_of_lt_add hfirst hletter)
    rwa [Nat.add_sub_cancel' hfirst, Char.ofNat_toNat] at hc

theorem isHexDigit_toLower : ∀ c : Char, Lexer.isHexDigit c.toLower = Lexer.isHexDigit c :=
  apply_toLower (by decide)

theorem hexValue?_toLower : ∀ c : Char, hexValue? c.toLower = hexValue? c :=
  apply_toLower (by decide)

/-- The digits of a number in base sixteen, each letter in either case. -/
def IsHexadecimal (n : Nat) (ds : List Char) : Prop := ds.map Char.toLower = Nat.toDigits 16 n

namespace IsHexadecimal

variable {n : Nat} {ds : List Char} (h : IsHexadecimal n ds)

include h

theorem ne_nil : ds ≠ [] := by
  rintro rfl
  exact toDigits_ne_nil 16 n h.symm

theorem isHexDigit : ∀ d ∈ ds, Lexer.isHexDigit d = true := by
  intro d hd
  have hmem : d.toLower ∈ Nat.toDigits 16 n := h ▸ List.mem_map_of_mem hd
  rw [← isHexDigit_toLower]
  exact forall_mem_toDigits (P := fun c => Lexer.isHexDigit c = true) (by decide)
    (fun _ hd => (digitChar_hex hd).1) n _ hmem

theorem ofDigits_eq : ofDigits 16 (ds.filterMap hexValue?) = n := by
  have hcase : (ds.map Char.toLower).filterMap hexValue? = ds.filterMap hexValue? := by
    rw [List.filterMap_map, show hexValue? ∘ Char.toLower = hexValue? from funext hexValue?_toLower]
  rw [← hcase, show ds.map Char.toLower = Nat.toDigits 16 n from h]
  exact ofDigits_toDigits (by decide) (fun _ hd => (digitChar_hex hd).2) n

end IsHexadecimal

theorem isHexadecimal_toDigits (n : Nat) : IsHexadecimal n (Nat.toDigits 16 n) := by
  have hlower : ∀ c ∈ Nat.toDigits 16 n, c.toLower = c :=
    forall_mem_toDigits (by decide) (by decide) n
  exact (List.map_congr_left hlower).trans (List.map_id _)

/-! ## Tokens -/

/-- A token with the text of a number stands for the number, unless it has too many digits. -/
theorem Token.integerValue_integerText {t : Token} {n : Nat} (h : t.value = integerText n) :
    t.integerValue =
      if digitCount n ≤ maxDigits then .ok (n : Int) else .error (.tooLong (digitCount n)) := by
  have hdigits : ∀ c ∈ t.value.toList, isDigit c = true := by
    rw [h, toList_integerText, if_neg (by omega)]
    exact isDigit_of_mem_toDigits _
  rw [integerValue_decimal hdigits, h, readInteger_integerText]

/-- A token with digits in base sixteen behind `0x` stands for the number, of any size. -/
theorem Token.integerValue_hexadecimal {t : Token} {n : Nat} {x : Char} {ds : List Char}
    (hx : x = 'x' ∨ x = 'X') (h : t.value.toList = '0' :: x :: ds) (hds : IsHexadecimal n ds) :
    t.integerValue = .ok (n : Int) := by
  rw [integerValue_hex hx h hds.ne_nil hds.isHexDigit, hds.ofDigits_eq]

end CellScript
