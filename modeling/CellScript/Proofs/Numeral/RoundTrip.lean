import CellScript.Proofs.Numeral.Literal
import CellScript.Proofs.Outcome
import CellScript.Proofs.Print.Spelling

/-!
# Integers and their texts

There are three ways back from the text of an integer: the function `int`, which takes white space
off and reads a sign; a token in base ten; and a token in base sixteen. All of them lead to the
integer, as long as there is a text. No integer is written in base ten with more than `maxDigits`
digits, and none is read from that many, while base sixteen has no such limit.

* `Exec.fullText_integer`: the text of an integer, or the failure to write it;
* `Exec.invoke_toInt_text`: what `int` makes of a text;
* `Exec.reread_gives_iff`: when an integer survives both.
-/

namespace CellScript

namespace Exec

/-- Turn a cell into a text and call `int` with the text. -/
def reread (self : Interp) (c : Cell) (line : Option Nat) : Exec Cell := do
  let t ← fullText self c line
  self.invoke (.builtin .toInt) none [← newCell (.string t)] line

variable (host : Host) (fuel : Nat) (line : Option Nat) {s : State} {c : Cell} {n : Int}

theorem fullText_integer (hc : s.store.get c = .integer n) :
    fullText (Interp.withFuel host (fuel + 1)) c line s =
      if digitCount n ≤ maxDigits then .ok (integerText n) s
      else .error (.number .tooManyDigits) s := by
  change textWith fuel (Interp.withFuel host fuel) s.frames c line s = _
  unfold textWith
  rw [value_bind_apply, hc]
  change ofNumber (Number.written [.whole n] (integerText n)) s = _
  unfold Number.written
  rw [List.all_cons, List.all_nil, Bool.and_true]
  unfold Number.isWritable
  simp only [decide_eq_true_eq]
  split <;> rfl

/-- In a call of `int`, the text of an integer becomes the integer. -/
theorem runBuiltin_toInt_text {text : Cell → Exec String} {t : String}
    (hx : s.find? "x" = some c) (hc : s.store.get c = .string t)
    (ht : readInteger (trim t.toList) = .ok n) :
    runBuiltin text .toInt s = result (.integer n) s := by
  have argument : argument "x" s = .ok c s := by
    unfold Exec.argument getName
    rw [bind_of_ok (show find? "x" s = .ok (s.find? "x") s from rfl), hx]
    rfl
  change (Exec.argument "x" >>= fun c => value c >>= _ : Exec (Option Cell)) s = _
  rw [bind_of_ok argument, value_bind_apply, hc]
  change integerOfText t s = _
  unfold integerOfText
  rw [ht]

theorem runCallable_toInt_text (self : Interp) {t : String} (hx : s.find? "x" = some c)
    (hc : s.store.get c = .string t) (ht : readInteger (trim t.toList) = .ok n) :
    runCallable host self (.builtin .toInt) line s = newCell (.integer n) s := by
  have native : mapFailure (Failure.located line)
      (runBuiltin (fullText self · none) .toInt) s =
        mapFailure (Failure.located line) (result (.integer n)) s := by
    unfold mapFailure
    rw [runBuiltin_toInt_text hx hc ht]
  change (mapFailure (Failure.located line)
    (runBuiltin (fullText self · none) .toInt) >>= _ : Exec Cell) s = _
  rw [bind_of_ok (native.trans rfl)]
  rfl

/-- So a call of `int` with such a text gives the integer, unless too many calls are active. -/
theorem invoke_toInt_text {t : String} (hc : s.store.get c = .string t)
    (ht : readInteger (trim t.toList) = .ok n) :
    (∃ d u, (Interp.withFuel host (fuel + 1)).invoke (.builtin .toInt) none [c] line s = .ok d u ∧
      u.store.get d = .integer n) ↔ s.callDepth < s.maxCallDepth := by
  change (∃ d u, inCall ["x"] none [c] line
    (runCallable host (Interp.withFuel host fuel) (.builtin .toInt) line) s = _ ∧ _) ↔ _
  rw [inCall_eq_activate]
  change (∃ d u, activate (Scope.empty.add "x" c) none line _ s = _ ∧ _) ↔ _
  by_cases room : s.callDepth < s.maxCallDepth
  · rw [activate_of_lt room]
    refine ⟨fun _ => room, fun _ => ?_⟩
    have body := runCallable_toInt_text host line (Interp.withFuel host fuel)
      (s := s.entered (Scope.empty.add "x" c) none) rfl hc ht
    unfold ensuring mapFailure
    rw [body]
    exact ⟨_, _, rfl, s.store.get_alloc_self (.integer n)⟩
  · rw [activate_of_le (Int.not_lt.1 room)]
    refine ⟨?_, fun h => absurd h room⟩
    rintro ⟨_, _, ⟨⟩, _⟩

/-- An integer survives being turned into a text and back if it has a text, and there is room for a
call. -/
theorem reread_gives_iff (hc : s.store.get c = .integer n) :
    (∃ d u, reread (Interp.withFuel host (fuel + 1)) c line s = .ok d u ∧
      u.store.get d = .integer n) ↔
      n.natAbs < pow10 maxDigits ∧ s.callDepth < s.maxCallDepth := by
  have htext := fullText_integer host fuel line hc
  rw [← digitCount_le_iff]
  unfold reread
  split at htext
  · next hfits =>
    rw [bind_of_ok htext, and_iff_right hfits]
    have hread : readInteger (trim (integerText n).toList) = .ok n := by
      rw [trim_integerText, readInteger_integerText, if_pos hfits]
    exact invoke_toInt_text host fuel line (s.store.get_alloc_self _) hread
  · next hlong =>
    rw [bind_of_error htext]
    refine ⟨?_, fun h => absurd h.1 hlong⟩
    rintro ⟨_, _, ⟨⟩, _⟩

/-- With too many digits nothing is read, and nothing has changed. -/
theorem reread_of_le (hc : s.store.get c = .integer n) (hn : pow10 maxDigits ≤ n.natAbs) :
    reread (Interp.withFuel host (fuel + 1)) c line s = .error (.number .tooManyDigits) s := by
  have htext := fullText_integer host fuel line hc
  rw [if_neg fun hfits => absurd ((digitCount_le_iff n).1 hfits) (Nat.not_lt.2 hn)] at htext
  exact bind_of_error htext

end Exec

/-! ## Texts in a source -/

theorem isReadAs_integerText (n : Nat) : IsReadAs (integerText n)
    (if n < pow10 maxDigits then .ok n else .error (.tooLong (digitCount n))) := by
  refine .of_shape (shape_integerText n) fun t ht => ?_
  rw [Token.integerValue_integerText ht]
  exact if_congr (digitCount_le_iff n) rfl rfl

theorem isReadAs_hexadecimal {n : Nat} {x : Char} {ds : List Char} (hx : x = 'x' ∨ x = 'X')
    (hds : IsHexadecimal n ds) : IsReadAs (String.ofList ('0' :: x :: ds)) (.ok n) := by
  refine .of_shape ?_ fun t ht => ?_
  · rw [String.toList_ofList]
    exact hds.shape hx
  · exact Token.integerValue_hexadecimal hx (by rw [ht, String.toList_ofList]) hds

/-- An integer with a text in base ten is read back from it, by `int` and, without a sign, in a
source. From `10 ^ maxDigits` on `int` gets no text and a source with the digits is not a script. In
base sixteen, in either letter case, all are read. -/
theorem integer_texts_round_trip (n : Int) :
    (∀ (host : Host) (fuel : Nat) (line : Option Nat) (s : State) (c : Cell),
      s.store.get c = .integer n →
      ((∃ d t, Exec.reread (Interp.withFuel host (fuel + 1)) c line s = .ok d t ∧
          t.store.get d = .integer n) ↔
        n.natAbs < pow10 maxDigits ∧ s.callDepth < s.maxCallDepth) ∧
      (pow10 maxDigits ≤ n.natAbs →
        Exec.reread (Interp.withFuel host (fuel + 1)) c line s =
          .error (.number .tooManyDigits) s)) ∧
    (0 ≤ n →
      IsReadAs (integerText n)
        (if n.natAbs < pow10 maxDigits then .ok n else .error (.tooLong (digitCount n))) ∧
      ∀ (x : Char) (ds : List Char), x = 'x' ∨ x = 'X' → IsHexadecimal n.natAbs ds →
        IsReadAs (String.ofList ('0' :: x :: ds)) (.ok n)) := by
  refine ⟨fun host fuel line _ _ hc =>
    ⟨Exec.reread_gives_iff host fuel line hc, Exec.reread_of_le host fuel line hc⟩, fun hn => ?_⟩
  obtain ⟨k, rfl⟩ := Int.eq_ofNat_of_zero_le hn
  exact ⟨isReadAs_integerText k, fun _ _ => isReadAs_hexadecimal⟩

/-- A state with an integer in its first cell. -/
def stateHolding (n : Int) : State :=
  { State.initial 200 with store := (Store.empty.alloc (.integer n)).2 }

theorem integer_texts_round_trip_small :
    (∃ d t, Exec.reread (Interp.withFuel (fun _ => return none) 1) ⟨0⟩ none (stateHolding (-255)) =
        .ok d t ∧ t.store.get d = .integer (-255)) ∧
      IsReadAs "255" (.ok 255) ∧ IsReadAs "0xfF" (.ok 255) := by
  have hsmall : 255 < pow10 maxDigits := (length_toDigits_le_iff (by decide)).1 (by decide)
  have hdigits : ['f', 'F'].map Char.toLower = Nat.toDigits 16 255 := by decide
  have reread := (integer_texts_round_trip (-255)).1 (fun _ => return none) 0 none
    (stateHolding (-255)) ⟨0⟩ rfl
  obtain ⟨decimal, hexadecimal⟩ := (integer_texts_round_trip 255).2 (by decide)
  rw [if_pos (show Int.natAbs 255 < pow10 maxDigits from hsmall)] at decimal
  exact ⟨reread.1.2 ⟨hsmall, by decide⟩, decimal, hexadecimal 'x' ['f', 'F'] (.inl rfl) hdigits⟩

/-- The least integer with too many digits has no text, and is not read from its digits. -/
theorem huge_integer_not_read_back :
    let n : Nat := pow10 maxDigits
    (stateHolding n).store.get ⟨0⟩ = .integer n ∧
      (¬ ∃ d t, Exec.reread (Interp.withFuel (fun _ => return none) 1) ⟨0⟩ none (stateHolding n) =
        .ok d t ∧ t.store.get d = .integer n) ∧
      ¬ IsReadAs (integerText n) (.ok n) := by
  -- The integer stays a variable, for it is too large to be computed with.
  suffices huge : ∀ n : Nat, n = pow10 maxDigits →
      (stateHolding n).store.get ⟨0⟩ = .integer n ∧
        (¬ ∃ d t, Exec.reread (Interp.withFuel (fun _ => return none) 1) ⟨0⟩ none
          (stateHolding n) = .ok d t ∧ t.store.get d = .integer n) ∧
        ¬ IsReadAs (integerText n) (.ok n) from huge _ rfl
  intro n hn
  refine ⟨rfl, fun h => ?_, fun h => ?_⟩
  · have hfits := ((Exec.reread_gives_iff _ 0 none rfl).1 h).1
    rw [Int.natAbs_natCast, hn] at hfits
    exact Nat.lt_irrefl _ hfits
  · have hlong := isReadAs_integerText n
    rw [if_neg (Nat.not_lt.2 (Nat.le_of_eq hn.symm))] at hlong
    cases h.unique hlong

end CellScript
