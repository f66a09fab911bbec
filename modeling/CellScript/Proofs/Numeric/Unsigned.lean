import CellScript.Proofs.Numeric.Nearest
import CellScript.Proofs.Text.Numerals

/-!
# Reals without a sign

The text of a real in a source has no sign, so it stands for a double that is no negative zero, and
it has a point, so it is not the word for not-a-number. Two such doubles that are found to be equal
are the same (`Binary64.Unsigned.eq_of_beq`), and each is equal to itself.

* `Binary64.Unsigned`: a double that has no sign and is a number or an infinity;
* `unsigned_of_readReal?`: what digits around a point stand for.
-/

namespace CellScript

/-- A number without a sign, or the infinity without one. -/
def Binary64.Unsigned (x : Float) : Prop :=
  (∃ M < 2047 * 2 ^ 52, x = Binary64.ofWord false M) ∨ x = Binary64.infinity false

namespace Binary64.Unsigned

open Float.Model.UnpackedFloat

variable {x y : Float}

theorem eq_of_beq (hx : Unsigned x) (hy : Unsigned y) (h : (x == y) = true) : x = y := by
  have hcompare : x.toModel.unpack.compare y.toModel.unpack = some .eq := by
    change (x.toModel.compare y.toModel == some .eq) = true at h
    exact beq_iff_eq.1 h
  have unpackInfinity : (Binary64.infinity false).toModel.unpack = .infinity .positive := rfl
  rcases hx with ⟨M, hM, rfl⟩ | rfl <;> rcases hy with ⟨N, hN, rfl⟩ | rfl
  · rw [Binary64.unpack_ofWord hM, Binary64.unpack_ofWord hN, Binary64.compare_ofMagnitude,
      Option.some_inj, Int.compare_eq_eq] at hcompare
    exact congrArg (Binary64.ofWord false) (Int.ofNat_inj.1 hcompare)
  · rw [Binary64.unpack_ofWord hM, unpackInfinity, Binary64.ofMagnitude] at hcompare
    split at hcompare <;> cases hcompare
  · rw [Binary64.unpack_ofWord hN, unpackInfinity, Binary64.ofMagnitude] at hcompare
    split at hcompare <;> cases hcompare
  · rfl

theorem beq_self (hx : Unsigned x) : (x == x) = true := by
  rcases hx with ⟨M, hM, rfl⟩ | rfl
  · change ((Binary64.ofWord false M).toModel.unpack.compare
      (Binary64.ofWord false M).toModel.unpack == some .eq) = true
    rw [Binary64.unpack_ofWord hM, Binary64.compare_ofMagnitude, Int.compare_eq_eq.2 rfl]
    rfl
  · rfl

end Binary64.Unsigned

/-! ## Texts of reals -/

namespace Binary64

theorem unsigned_zero : Binary64.Unsigned (zero false) := .inl ⟨0, by decide, rfl⟩

/-- Rounding adds no sign. -/
theorem unsigned_nearest? {num den : Nat} {x : Float} (h : nearest? false num den = some x) :
    Binary64.Unsigned x := by
  unfold nearest? at h
  dsimp only at h
  split at h
  · cases h
    exact unsigned_zero
  · obtain ⟨hbound, h⟩ := Option.ite_none_right_eq_some.1 h
    cases h
    exact .inl ⟨_, hbound, assemble_eq false _ _⟩

end Binary64

theorem unsigned_decimalNearest (digits : Nat) (exponent : Int) :
    Binary64.Unsigned (decimalNearest false digits exponent) := by
  have rounded {x? : Option Float} (h : ∀ x, x? = some x → Binary64.Unsigned x) :
      Binary64.Unsigned (x?.getD (Binary64.infinity false)) := by
    cases x? with
    | none => exact .inr rfl
    | some x => exact h x rfl
  unfold decimalNearest
  dsimp only
  split
  · exact Binary64.unsigned_zero
  split
  · exact .inr rfl
  · refine rounded fun x hx => ?_
    split at hx <;> exact Binary64.unsigned_nearest? hx

/-- Digits around a point stand for a double without a sign, if they stand for one. -/
theorem unsigned_of_readReal? {cs : List Char} {x : Float}
    (hcs : ∀ c ∈ cs, isDigit c = true ∨ c = '.') (hpoint : '.' ∈ cs) (h : readReal? cs = some x) :
    Binary64.Unsigned x := by
  have htrim : trimBy isPadding cs = cs := trimBy_of_forall fun c hc => by
    rcases hcs c hc with hdigit | rfl
    · exact isPadding_of_isDigit hdigit
    · rfl
  unfold readReal? at h
  rw [htrim, splitSign_of_forall hcs] at h
  simp only [realWord?_of_point hpoint] at h
  split at h
  · cases h
  · obtain ⟨e, -, rfl⟩ := Option.map_eq_some_iff.1 h
    exact unsigned_decimalNearest _ _

end CellScript
