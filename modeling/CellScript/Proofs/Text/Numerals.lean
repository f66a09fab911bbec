import Mathlib.Data.List.TakeWhile
import CellScript.Proofs.Text.Classes
import CellScript.Token.Reader

/-!
# Which numerals can be read

The lexer takes every digit for part of a number, also one that is no decimal digit, such as a
superscript. Whether the text stands for a number shows only when it is read.

* `splitRun_eq`: a run of digits ends before the first character that is none;
* `exists_readInteger`: digits are read as an integer if all of them are decimal and they are not
  too many, and only then;
* `readHex?_digits`: hexadecimal digits are always read;
* `readReal?_isSome`: digits around a point are read if all of them are decimal, and only then.
-/

namespace CellScript

/-- Whether a character is a decimal digit. -/
def isDecimal (c : Char) : Bool := (decimalValue? c).isSome

/-! ## Runs of digits -/

/-- Without underscores, a run of digits ends before the first character that is none. -/
theorem splitRun_eq {value? : Char → Option Nat} {cs : List Char} (h : '_' ∉ cs) :
    splitRun value? cs =
      ((cs.takeWhile fun c => (value? c).isSome).filterMap value?,
        cs.dropWhile fun c => (value? c).isSome) := by
  fun_induction splitRun value? cs with
  | case1 => rfl
  | case2 => exact absurd (by simp) h
  | case3 => exact absurd (by simp) h
  | case4 => exact absurd (by simp) h
  | case5 c rest _ hc => simp [hc]
  | case6 c rest _ d hc ds left hrest ih =>
    rw [ih fun hmem => h (List.mem_cons_of_mem _ hmem)] at hrest
    cases hrest
    simp [hc]

/-- A text that consists of digits is read to its end. -/
theorem splitRun_digits {value? : Char → Option Nat} {cs : List Char} (h : '_' ∉ cs)
    (hcs : ∀ c ∈ cs, (value? c).isSome = true) :
    splitRun value? cs = (cs.filterMap value?, []) := by
  rw [splitRun_eq h, List.takeWhile_eq_self_iff.2 hcs, List.dropWhile_eq_nil_iff.2 hcs]

theorem trimEndBy_of_forall {p : Char → Bool} {cs : List Char} (h : ∀ c ∈ cs, p c = false) :
    trimEndBy p cs = cs := by
  unfold trimEndBy
  rw [List.dropWhile_eq_self_iff.2 fun hlen => by simp [h], List.reverse_reverse]

theorem trimBy_of_forall {p : Char → Bool} {cs : List Char} (h : ∀ c ∈ cs, p c = false) :
    trimBy p cs = cs := by
  unfold trimBy
  rw [List.dropWhile_eq_self_iff.2 fun hlen => by simp [h], trimEndBy_of_forall h]

theorem isPadding_of_isDigit {c : Char} (hc : isDigit c = true) : isPadding c = false := by
  simp [isPadding, isBlank_of_isDigit hc]

/-- A sign is neither a digit nor a point. -/
theorem splitSign_of_forall {cs : List Char} (h : ∀ c ∈ cs, isDigit c = true ∨ c = '.') :
    splitSign cs = (false, cs) := by
  have hsign {s : Char} (hdigit : isDigit s = false) (hpoint : s ≠ '.') (rest : List Char) :
      cs ≠ s :: rest := by
    rintro rfl
    rcases h s List.mem_cons_self with hs | rfl
    · exact ne_of_isDigit hs hdigit rfl
    · exact hpoint rfl
  unfold splitSign
  split
  · exact absurd rfl (hsign (by decide) (by decide) _)
  · exact absurd rfl (hsign (by decide) (by decide) _)
  · rfl

/-! ## Integers -/

section

variable {cs : List Char} (hcs : ∀ c ∈ cs, isDigit c = true)

include hcs

theorem underscore_not_mem : '_' ∉ cs := fun hmem =>
  ne_of_isDigit (hcs _ hmem) (by decide) rfl

/-- Where only digits stand, there is no padding and no sign to look at. -/
theorem readInteger_eq :
    readInteger cs =
      let (ds, rest) := splitDigits cs
      if ds.isEmpty || rest.head? == some '_' then .error .malformed
      else if maxDigits < ds.length then .error (.tooLong ds.length)
      else if rest.isEmpty then .ok (ofDigits 10 ds)
      else .error .malformed := by
  unfold readInteger
  rw [trimBy_of_forall fun c hc => isPadding_of_isDigit (hcs c hc),
    splitSign_of_forall fun c hc => .inl (hcs c hc)]
  rfl

/-- Decimal digits are read as an integer if they are not too many. -/
theorem readInteger_digits (hne : cs ≠ []) (hdecimal : ∀ c ∈ cs, isDecimal c = true) :
    readInteger cs = if maxDigits < cs.length then .error (.tooLong cs.length)
      else .ok (ofDigits 10 (cs.filterMap decimalValue?)) := by
  have hlen : (cs.filterMap decimalValue?).length = cs.length :=
    List.filterMap_length_eq_length.2 hdecimal
  have hsome : (cs.filterMap decimalValue?).isEmpty = false := by
    rw [List.isEmpty_eq_false_iff, ← List.length_pos_iff, hlen, List.length_pos_iff]
    exact hne
  rw [readInteger_eq hcs, splitDigits, splitRun_digits (underscore_not_mem hcs) hdecimal]
  simp [hlen, hsome]

/-- Digits are read as an integer only if all of them are decimal. -/
theorem forall_isDecimal_of_readInteger {v : Int} (hv : readInteger cs = .ok v) :
    ∀ c ∈ cs, isDecimal c = true := by
  rw [readInteger_eq hcs, splitDigits, splitRun_eq (underscore_not_mem hcs)] at hv
  dsimp only at hv
  split at hv
  · cases hv
  split at hv
  · cases hv
  split at hv
  · next hrest => exact List.dropWhile_eq_nil_iff.1 (List.isEmpty_iff.1 hrest)
  · cases hv

theorem exists_readInteger (hne : cs ≠ []) :
    (∃ v, readInteger cs = .ok v) ↔
      (∀ c ∈ cs, isDecimal c = true) ∧ cs.length ≤ maxDigits := by
  constructor
  · rintro ⟨v, hv⟩
    have hdecimal := forall_isDecimal_of_readInteger hcs hv
    refine ⟨hdecimal, Nat.le_of_not_lt fun hlong => ?_⟩
    rw [readInteger_digits hcs hne hdecimal, if_pos hlong] at hv
    cases hv
  · rintro ⟨hdecimal, hlen⟩
    exact ⟨_, by rw [readInteger_digits hcs hne hdecimal, if_neg (Nat.not_lt.2 hlen)]⟩

end

/-! ## Hexadecimal digits -/

/-- What holds of the hexadecimal digits up to the last one holds of all of them. -/
theorem of_isHexDigit {P : Char → Prop}
    (h : ∀ n ≤ 'f'.toNat, Lexer.isHexDigit (Char.ofNat n) = true → P (Char.ofNat n)) {c : Char}
    (hc : Lexer.isHexDigit c = true) : P c := by
  have hlast : c.toNat ≤ 'f'.toNat := by
    simp only [Lexer.isHexDigit, Bool.or_eq_true, Bool.and_eq_true, decide_eq_true_eq] at hc
    rcases hc with (⟨-, h⟩ | ⟨-, h⟩) | ⟨-, h⟩ <;> exact Nat.le_trans h (by decide)
  have hself := h c.toNat hlast
  rw [Char.ofNat_toNat] at hself
  exact hself hc

/-- What the hexadecimal digits are, and are not. -/
theorem hexValue?_of_isHexDigit {c : Char} (hc : Lexer.isHexDigit c = true) :
    (hexValue? c).isSome = true ∧ isPadding c = false ∧ c ≠ '_' :=
  of_isHexDigit (P := fun c => (hexValue? c).isSome = true ∧ isPadding c = false ∧ c ≠ '_')
    (by decide) hc

/-- A name may go on with a hexadecimal digit. -/
theorem isNameChar_of_isHexDigit {c : Char} (hc : Lexer.isHexDigit c = true) :
    isNameChar c = true :=
  of_isHexDigit (P := fun c => isNameChar c = true) (by decide) hc

/-- Hexadecimal digits are read as a number, however many they are. -/
theorem readHex?_digits {cs : List Char} (hne : cs ≠ [])
    (hcs : ∀ c ∈ cs, Lexer.isHexDigit c = true) :
    readHex? cs = some (ofDigits 16 (cs.filterMap hexValue?)) := by
  have hvalue : ∀ c ∈ cs, (hexValue? c).isSome = true := fun c hc =>
    (hexValue?_of_isHexDigit (hcs c hc)).1
  have hbar : '_' ∉ cs := fun hmem => (hexValue?_of_isHexDigit (hcs _ hmem)).2.2 rfl
  have hsome : cs.filterMap hexValue? ≠ [] := by
    rw [← List.length_pos_iff, List.filterMap_length_eq_length.2 hvalue, List.length_pos_iff]
    exact hne
  unfold readHex?
  rw [trimEndBy_of_forall fun c hc => (hexValue?_of_isHexDigit (hcs c hc)).2.1]
  have hrun := splitRun_digits hbar hvalue
  generalize cs.filterMap hexValue? = ds at hrun hsome
  cases cs with
  | nil => exact absurd rfl hne
  | cons c cs =>
    -- no digit is the underscore that may stand behind `0x`
    have hc : c ≠ '_' := fun h => hbar (h ▸ List.mem_cons_self)
    simp [hc, hrun]

/-! ## The text of an integer -/

/-- Digits are in base ten. -/
theorem Token.integerValue_decimal {t : Token} (h : ∀ c ∈ t.value.toList, isDigit c = true) :
    t.integerValue = readInteger t.value.toList := by
  have hsecond {x : Char} (hx : isDigit x = false) (ds : List Char) :
      t.value.toList ≠ '0' :: x :: ds := fun heq =>
    ne_of_isDigit (h x (heq ▸ by simp)) hx rfl
  unfold integerValue
  dsimp only
  split
  · next heq => exact absurd heq (hsecond (by decide) _)
  · next heq => exact absurd heq (hsecond (by decide) _)
  · rfl

/-- Behind `0x` they are in base sixteen. -/
theorem Token.integerValue_hex {t : Token} {x : Char} {ds : List Char} (hx : x = 'x' ∨ x = 'X')
    (h : t.value.toList = '0' :: x :: ds) (hne : ds ≠ [])
    (hds : ∀ d ∈ ds, Lexer.isHexDigit d = true) :
    t.integerValue = .ok (ofDigits 16 (ds.filterMap hexValue?)) := by
  unfold integerValue
  rw [h]
  rcases hx with rfl | rfl <;> simp [readHex?_digits hne hds]

/-! ## Reals -/

/-- The words for values without digits have no point. -/
theorem realWord?_of_point {cs : List Char} (h : '.' ∈ cs) : realWord? cs = none := by
  have hpoint : '.' ∈ (String.ofList (cs.map Char.toLower)).toList := by
    rw [String.toList_ofList]
    exact List.mem_map.2 ⟨'.', h, by decide⟩
  have hword (w : String) (hw : '.' ∉ w.toList) :
      (String.ofList (cs.map Char.toLower) == w) = false := by
    rw [beq_eq_false_iff_ne]
    rintro rfl
    exact hw hpoint
  simp [realWord?, hword "inf" (by decide), hword "infinity" (by decide), hword "nan" (by decide)]

/-- A digit opens no power of ten. -/
theorem readExponent?_of_isDigit {cs : List Char} (h : ∀ c ∈ cs.head?, isDigit c = true) :
    (readExponent? cs).isSome = cs.isEmpty := by
  cases cs with
  | nil => rfl
  | cons c cs =>
    have he : c ≠ 'e' := ne_of_isDigit (h c rfl) (by decide)
    have hE : c ≠ 'E' := ne_of_isDigit (h c rfl) (by decide)
    simp [readExponent?, he, hE]

section

variable {whole part : List Char} (hds : ∀ c ∈ whole ++ part, isDigit c = true)

include hds

theorem isDigit_or_point : ∀ c ∈ whole ++ '.' :: part, isDigit c = true ∨ c = '.' := by
  intro c hc
  rw [List.mem_append, List.mem_cons] at hc
  rcases hc with hc | rfl | hc
  · exact .inl (hds c (List.mem_append_left _ hc))
  · exact .inr rfl
  · exact .inl (hds c (List.mem_append_right _ hc))

/-- A character that is neither a digit nor a point. -/
theorem not_mem_of_isDigit {d : Char} (hd : isDigit d = false) (hpoint : d ≠ '.') :
    d ∉ whole ++ '.' :: part := by
  intro hmem
  rcases isDigit_or_point hds d hmem with h | h
  · exact ne_of_isDigit h hd rfl
  · exact hpoint h

/-- Decimal digits are split at the point. -/
theorem splitPoint_digits (hdecimal : ∀ c ∈ whole, isDecimal c = true) :
    splitPoint (whole ++ '.' :: part) =
      (whole.filterMap decimalValue?, (part.takeWhile isDecimal).filterMap decimalValue?,
        part.dropWhile isDecimal) := by
  have hpoint : ∀ c ∈ ('.' :: part).head?, isDecimal c = false := by
    rintro c ⟨⟩
    decide
  obtain ⟨htake, hdrop⟩ := split_run hdecimal hpoint
  have hbar := not_mem_of_isDigit hds (d := '_') (by decide) (by decide)
  have hmore : '_' ∉ part := fun h => hbar (by simp [h])
  have hrun :
      splitDigits (whole ++ '.' :: part) = (whole.filterMap decimalValue?, '.' :: part) := by
    rw [splitDigits, splitRun_eq hbar]
    exact congrArg₂ _ (congrArg _ htake) hdrop
  have hfraction : splitDigits part =
      ((part.takeWhile isDecimal).filterMap decimalValue?, part.dropWhile isDecimal) :=
    splitRun_eq hmore
  simp [splitPoint, hrun, hfraction]

/-- Another digit in front of the point ends the number there. -/
theorem splitPoint_other (hother : ¬ ∀ c ∈ whole, isDecimal c = true) :
    ∃ ds c rest, splitPoint (whole ++ '.' :: part) = (ds, [], c :: rest) ∧ isDigit c = true := by
  have hne : whole.dropWhile isDecimal ≠ [] := fun h => hother (List.dropWhile_eq_nil_iff.1 h)
  obtain ⟨c, rest, hrest⟩ := List.exists_cons_of_ne_nil hne
  have hc : isDigit c = true :=
    hds c (List.mem_append_left _ ((List.dropWhile_sublist _).subset (hrest ▸ List.mem_cons_self)))
  have hdrop : (whole ++ '.' :: part).dropWhile isDecimal = c :: (rest ++ '.' :: part) := by
    rw [List.dropWhile_append, hrest]
    rfl
  have hrun : splitDigits (whole ++ '.' :: part) =
      (((whole ++ '.' :: part).takeWhile isDecimal).filterMap decimalValue?,
        c :: (rest ++ '.' :: part)) := by
    rw [← hdrop]
    exact splitRun_eq (not_mem_of_isDigit hds (by decide) (by decide))
  have hpoint : c ≠ '.' := ne_of_isDigit hc (by decide)
  have hsplit : splitPoint (whole ++ '.' :: part) =
      (((whole ++ '.' :: part).takeWhile isDecimal).filterMap decimalValue?, [],
        c :: (rest ++ '.' :: part)) := by
    simp only [splitPoint, hrun]
    split
    · next heq => exact absurd (List.cons.inj heq).1 hpoint
    · rfl
  exact ⟨_, _, _, hsplit, hc⟩

/-- Digits around a point are read as a real if all of them are decimal, and only then. -/
theorem readReal?_isSome (hne : whole ++ part ≠ []) :
    (readReal? (whole ++ '.' :: part)).isSome = (whole ++ part).all isDecimal := by
  have hpadding : ∀ c ∈ whole ++ '.' :: part, isPadding c = false := by
    intro c hc
    rcases isDigit_or_point hds c hc with hc | rfl
    · exact isPadding_of_isDigit hc
    · decide
  have hread (split) (hsplit : splitPoint (whole ++ '.' :: part) = split) :
      (readReal? (whole ++ '.' :: part)).isSome =
        (!(split.1.isEmpty && split.2.1.isEmpty) && (readExponent? split.2.2).isSome) := by
    subst hsplit
    unfold readReal?
    rw [trimBy_of_forall hpadding, splitSign_of_forall (isDigit_or_point hds)]
    dsimp only
    rw [realWord?_of_point (by simp)]
    dsimp only
    split <;> simp [*]
  rw [List.all_append]
  by_cases hdecimal : ∀ c ∈ whole, isDecimal c = true
  · have hleft : ∀ c ∈ (part.dropWhile isDecimal).head?, isDigit c = true := fun c hc =>
      hds c (List.mem_append_right _
        ((List.dropWhile_sublist _).subset (List.mem_of_mem_head? hc)))
    rw [hread _ (splitPoint_digits hds hdecimal)]
    dsimp only
    rw [readExponent?_of_isDigit hleft, List.all_eq_true.2 hdecimal, Bool.true_and]
    by_cases hpart : ∀ c ∈ part, isDecimal c = true
    · have hsome : ¬ (whole.filterMap decimalValue? = [] ∧ part.filterMap decimalValue? = []) := by
        rw [← List.length_eq_zero_iff, ← List.length_eq_zero_iff,
          List.filterMap_length_eq_length.2 hdecimal, List.filterMap_length_eq_length.2 hpart,
          List.length_eq_zero_iff, List.length_eq_zero_iff, ← List.append_eq_nil_iff]
        exact hne
      rw [List.takeWhile_eq_self_iff.2 hpart, List.dropWhile_eq_nil_iff.2 hpart,
        List.all_eq_true.2 hpart]
      rw [← List.isEmpty_iff, ← List.isEmpty_iff, ← Bool.and_eq_true, Bool.not_eq_true] at hsome
      rw [hsome]
      rfl
    · have hrest : (part.dropWhile isDecimal).isEmpty = false := by
        rw [List.isEmpty_eq_false_iff]
        exact fun h => hpart (List.dropWhile_eq_nil_iff.1 h)
      rw [hrest, Bool.and_false, eq_comm, ← Bool.not_eq_true, List.all_eq_true]
      exact hpart
  · obtain ⟨ds, c, rest, hsplit, hc⟩ := splitPoint_other hds hdecimal
    have hall : whole.all isDecimal = false := by
      rwa [← Bool.not_eq_true, List.all_eq_true]
    rw [hread _ hsplit, hall]
    dsimp only
    rw [readExponent?_of_isDigit (by simpa using hc)]
    simp

end

end CellScript
