import CellScript.Text.Blank
import CellScript.Text.Numeral

/-!
# Classes of characters

Classes are sets of code points that are given by their boundaries, so whether two of them have a
point in common is found by walking along the boundaries of both.

* `apart`: the walk, and `within_apart`: what it tells;
* `isNameStart_of_isDigit`, `isBlank_of_isDigit`: a digit opens no name and is no white space.
-/

namespace CellScript

/-! ## Sets without a common point -/

/-- Whether two sets have no point in common from some point on. The flags tell whether that point
lies in them, and the lists are the boundaries behind it. Each turn passes a boundary; a set that
has none left must not go on for ever. -/
def apart : (turns : Nat) → (inA inB : Bool) → (as bs : List Nat) → Bool
  | _, inA, _, [], _ => !inA
  | _, _, inB, _, [] => !inB
  | 0, _, _, _, _ => false
  | n + 1, inA, inB, a :: as, b :: bs =>
    !(inA && inB) &&
      if a < b then apart n (!inA) inB as (b :: bs)
      else if b < a then apart n inA (!inB) (a :: as) bs
      else apart n (!inA) (!inB) as bs

theorem within_of_lt {b n : Nat} (h : n < b) (bs : List Nat) : within (b :: bs) n = false := by
  simp [within, h]

/-- Behind a boundary the flag is the other one. -/
theorem xor_within_of_le {b n : Nat} (h : b ≤ n) (inside : Bool) (bs : List Nat) :
    (inside ^^ within (b :: bs) n) = (!inside ^^ within bs n) := by
  simp [within, Nat.not_lt.2 h]

theorem within_apart {turns : Nat} {inA inB : Bool} {as bs : List Nat}
    (h : apart turns inA inB as bs = true) (n : Nat) :
    ((inA ^^ within as n) && (inB ^^ within bs n)) = false := by
  fun_induction apart turns inA inB as bs with
  | case1 => simp_all [within]
  | case2 => simp_all [within]
  | case3 => cases h
  | case4 k inA inB a as b bs passA passB passBoth =>
    rw [Bool.and_eq_true] at h
    obtain ⟨here, later⟩ := h
    by_cases hn : n < a ∧ n < b
    · rw [within_of_lt hn.1, within_of_lt hn.2, Bool.xor_false, Bool.xor_false]
      rwa [Bool.not_eq_true'] at here
    -- the point lies behind the boundary that this turn passes
    split at later
    · rw [xor_within_of_le (by omega)]
      exact passA later
    · split at later
      · rw [xor_within_of_le (b := b) (by omega)]
        exact passB later
      · rw [xor_within_of_le (b := a) (by omega), xor_within_of_le (b := b) (by omega)]
        exact passBoth later

/-- A point of the first set is not in the second one. -/
theorem not_within_of_apart (turns : Nat) (as bs : List Nat)
    (h : apart turns false false as bs = true) {n : Nat} (hn : within as n = true) :
    within bs n = false := by
  simpa [hn] using within_apart h n

/-- A run of characters ends where none of its class follows. -/
theorem split_run {p : Char → Bool} {cs rest : List Char} (hcs : ∀ c ∈ cs, p c = true)
    (hrest : ∀ c ∈ rest.head?, p c = false) :
    (cs ++ rest).takeWhile p = cs ∧ (cs ++ rest).dropWhile p = rest := by
  rw [List.takeWhile_append_of_pos hcs, List.dropWhile_append_of_pos hcs]
  cases rest with
  | nil => simp
  | cons c rest => simp [hrest c rfl]

/-! ## Digits -/

section

variable {c : Char} (hc : isDigit c = true)

include hc

/-- A digit is none of the characters that are no digits. -/
theorem ne_of_isDigit {d : Char} (hd : isDigit d = false) : c ≠ d := by
  rintro rfl
  rw [hc] at hd
  cases hd

theorem isLetter_of_isDigit : isLetter c = false :=
  not_within_of_apart 1600 digitBounds _ (by decide +kernel) hc

theorem isNameStart_of_isDigit : isNameStart c = false := by
  have hbar : c ≠ '_' := ne_of_isDigit hc (by decide)
  simp [isNameStart, isLetter_of_isDigit hc, hbar]

theorem isBlank_of_isDigit : isBlank c = false :=
  not_within_of_apart 200 digitBounds _ (by decide +kernel) hc

theorem isGap_of_isDigit : isGap c = false := by
  simp [isGap, ne_of_isDigit hc (d := ' ') (by decide),
    ne_of_isDigit hc (d := '\t') (by decide),
    ne_of_isDigit hc (d := '\r') (by decide),
    ne_of_isDigit hc (d := '\n') (by decide)]

end

end CellScript
