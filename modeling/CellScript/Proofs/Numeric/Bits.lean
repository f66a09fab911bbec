import Mathlib
import CellScript.Numeric.Number

/-!
# Doubles by their bits

The order that `Number.compareReal` reports is that of the logical model of doubles: bits are taken
apart into a sign, an exponent and a significand, and these are compared one after the other. A
finite double is given here by its sign and its *magnitude*, the bits behind the sign as a number
(`Binary64.ofWord`).

Taking such a double apart gives back what was put in (`Binary64.unpack_ofWord`), so that two of
them are ordered as their signed magnitudes (`Binary64.compareReal_ofWord`), a zero of either sign
being nought. What a magnitude stands for grows with it (`Binary64.scale_lt_iff`).
-/

namespace CellScript

namespace Binary64

open Float.Model (UnpackedFloat Format)
open Float.Model.UnpackedFloat

/-! ## Bits and fields -/

section Fields

variable {s : Bool} {M : Nat}

/-- The sign of a double in the logical model. -/
def signOf (negative : Bool) : Sign := if negative then .negative else .positive

/-- The bits of a double. -/
def word (negative : Bool) (magnitude : Nat) : BitVec 64 :=
  BitVec.ofNat 64 (magnitude + if negative then pow2 63 else 0)

theorem toNat_word (h : M < 2 ^ 63) : (word s M).toNat = M + if s then 2 ^ 63 else 0 := by
  have hsign : pow2 63 = 2 ^ 63 := rfl
  simp only [word, BitVec.toNat_ofNat, hsign]
  cases s <;> simp <;> omega

theorem unpackMantissa_word (h : M < 2 ^ 63) :
    @unpackMantissa Format.binary64 (word s M) = BitVec.ofNat 52 M := by
  apply BitVec.eq_of_toNat_eq
  simp only [unpackMantissa, BitVec.toNat_cast, BitVec.extractLsb_toNat, toNat_word h]
  cases s with
  | false => simp
  | true =>
    simp
    omega

theorem unpackExponent_word (h : M < 2 ^ 63) :
    @unpackExponent Format.binary64 (word s M) = BitVec.ofNat 11 (M / 2 ^ 52) := by
  apply BitVec.eq_of_toNat_eq
  simp only [unpackExponent, BitVec.toNat_cast, BitVec.extractLsb_toNat, toNat_word h]
  cases s with
  | false => simp [Nat.shiftRight_eq_div_pow]
  | true =>
    simp [Nat.shiftRight_eq_div_pow]
    omega

theorem unpackSign_word (h : M < 2 ^ 63) :
    Sign.ofBitVec (@unpackSign Format.binary64 (word s M)) = signOf s := by
  have hbit : @unpackSign Format.binary64 (word s M) = BitVec.ofBool s := by
    apply BitVec.eq_of_toNat_eq
    simp only [unpackSign, BitVec.toNat_cast, BitVec.extractLsb_toNat, toNat_word h]
    cases s <;> simp [Nat.shiftRight_eq_div_pow] <;> omega
  rw [hbit]
  cases s <;> rfl

/-- The fields put together again. -/
theorem packComponents_word (h : M < 2 ^ 63) :
    packComponents Format.binary64 (signOf s) (BitVec.ofNat 11 (M / 2 ^ 52)) (BitVec.ofNat 52 M) =
      word s M := by
  have hsign : ∀ b : BitVec 1, (Sign.ofBitVec b).toBitVec = b := by decide
  rw [← unpackSign_word h, ← unpackExponent_word (s := s) h, ← unpackMantissa_word (s := s) h,
    packComponents, hsign]
  simp only [unpackSign, unpackExponent, unpackMantissa, BitVec.extractLsb]
  ext i hi
  grind

end Fields

/-! ## Unpacking -/

section Unpacking

variable {s : Bool} {M : Nat}

/-- The significand of a finite double. -/
def significand (M : Nat) : Nat := if M < 2 ^ 52 then M else 2 ^ 52 + M % 2 ^ 52

/-- The exponent of a finite double. -/
def exponent (M : Nat) : Int := if M < 2 ^ 52 then minExponent else (M / 2 ^ 52 : Nat) - 1075

theorem significand_pos (h : M ≠ 0) : 0 < significand M := by
  unfold significand
  split <;> omega

/-- The unpacked form of a finite double. -/
def ofMagnitude (s : Bool) (M : Nat) : UnpackedFloat :=
  if h : M = 0 then .zero (signOf s)
  else .finite (signOf s) (significand M) (exponent M) (significand_pos h)

theorem ofNat_eq_ofNat {w k l : Nat} (hk : k < 2 ^ w) (hl : l < 2 ^ w) :
    BitVec.ofNat w k = BitVec.ofNat w l ↔ k = l := by
  rw [← BitVec.toNat_inj, BitVec.toNat_ofNat, BitVec.toNat_ofNat, Nat.mod_eq_of_lt hk,
    Nat.mod_eq_of_lt hl]

theorem unpack_word (h : M < 2047 * 2 ^ 52) :
    unpack Format.binary64 (word s M) = ofMagnitude s M := by
  have hM : M < 2 ^ 63 := by omega
  have hbias : ((Format.binary64.exponentBias : Nat) : Int) = 1023 := rfl
  have hinf : BitVec.ofNat 11 (M / 2 ^ 52) ≠ -1#11 := by
    rw [show (-1#11) = BitVec.ofNat 11 2047 from rfl, Ne, ofNat_eq_ofNat] <;> omega
  simp only [unpack, unpackSign_word hM, unpackExponent_word hM, unpackMantissa_word hM, hbias]
  rw [if_neg hinf]
  unfold ofMagnitude significand exponent
  by_cases hs : M < 2 ^ 52
  · rw [Nat.div_eq_of_lt hs, if_pos rfl]
    by_cases hz : M = 0
    · subst hz
      rfl
    · have hmant : BitVec.ofNat 52 M ≠ 0#52 := by
        rw [Ne, ofNat_eq_ofNat] <;> omega
      rw [dif_neg hmant, dif_neg hz]
      simp only [BitVec.toNat_ofNat, Nat.mod_eq_of_lt hs, if_pos hs]
      rfl
  · have hzero : BitVec.ofNat 11 (M / 2 ^ 52) ≠ 0#11 := by
      rw [Ne, ofNat_eq_ofNat] <;> omega
    have hfull : (1#1 ++ BitVec.ofNat 52 M).toNat = 2 ^ 52 + M % 2 ^ 52 := by
      change 1 <<< 52 ||| M % 2 ^ 52 = _
      rw [← Nat.shiftLeft_add_eq_or_of_lt (Nat.mod_lt _ (by decide)), Nat.one_shiftLeft]
    have hexp : (BitVec.ofNat 11 (M / 2 ^ 52)).toNat = M / 2 ^ 52 :=
      Nat.mod_eq_of_lt (show M / 2 ^ 52 < 2 ^ 11 by omega)
    rw [if_neg hzero, dif_neg (by omega)]
    simp only [hfull, hexp, if_neg hs]
    rfl

theorem pack_ofMagnitude (h : M < 2047 * 2 ^ 52) :
    pack Format.binary64 (ofMagnitude s M) = word s M := by
  rw [← packComponents_word (by omega)]
  have hbits : Format.binary64.mantissaBits = 53 := rfl
  have hbias : ((Format.binary64.exponentBias : Nat) : Int) = 1023 := rfl
  unfold ofMagnitude
  split
  · next hz => subst hz; rfl
  next hz =>
  unfold significand exponent
  by_cases hs : M < 2 ^ 52
  · have hlog : M.log2 < 52 := (Nat.log2_lt hz).mpr hs
    simp only [pack, hbits, if_pos hs]
    rw [if_neg (by decide), if_neg (by omega), Nat.div_eq_of_lt hs]
  · have hlog : (2 ^ 52 + M % 2 ^ 52).log2 = 52 :=
      (Nat.log2_eq_iff (by omega)).mpr ⟨by omega, by omega⟩
    have hexp : (((M / 2 ^ 52 : Nat) : Int) - 1075 + 1023 + (52 : Nat)).toNat = M / 2 ^ 52 := by
      omega
    simp only [pack, hbits, if_neg hs, hlog, hbias, hexp]
    rw [if_neg (show ¬ 2 ^ 11 ≤ M / 2 ^ 52 + 1 by omega), if_pos trivial]
    congr 1
    exact BitVec.eq_of_toNat_eq (by simp)

/-- The double of a sign and a magnitude. -/
def ofWord (s : Bool) (M : Nat) : Float := Float.ofBits (UInt64.ofBitVec (word s M))

theorem unpack_ofWord (h : M < 2047 * 2 ^ 52) :
    (ofWord s M).toModel.unpack = ofMagnitude s M := by
  change unpack Format.binary64 (pack Format.binary64 (unpack Format.binary64 (word s M))) = _
  rw [unpack_word h, pack_ofMagnitude h, unpack_word h]

end Unpacking

/-! ## Order -/

/-- Doubles of one sign are ordered as their bits. -/
theorem compare_fields (M N : Nat) :
    (compare (exponent M) (exponent N)).then (compare (significand M) (significand N)) =
      compare M N := by
  have fields_lt : ∀ {M N : Nat}, M < N →
      exponent M < exponent N ∨ exponent M = exponent N ∧ significand M < significand N := by
    intro M N h
    unfold exponent significand minExponent
    split <;> split <;> omega
  rcases Nat.lt_trichotomy M N with h | rfl | h
  · rw [Nat.compare_eq_lt.mpr h, Ordering.then_eq_lt]
    simpa only [Nat.compare_eq_lt, Int.compare_eq_lt, Int.compare_eq_eq] using fields_lt h
  · simp
  · rw [Nat.compare_eq_gt.mpr h, Ordering.then_eq_gt]
    simpa only [Nat.compare_eq_gt, Int.compare_eq_gt, Int.compare_eq_eq] using
      (fields_lt h).imp_right (And.imp_left Eq.symm)

theorem compare_ofMagnitude (s t : Bool) (M N : Nat) :
    (ofMagnitude s M).compare (ofMagnitude t N) = some (compare (signed s M) (signed t N)) := by
  unfold ofMagnitude
  by_cases hM : M = 0 <;> by_cases hN : N = 0 <;> cases s <;> cases t <;>
    simp only [hM, hN, signOf, UnpackedFloat.compare, signed, compare_fields, dite_true, dite_false,
      if_true, Bool.false_eq_true, if_false] <;>
    simp only [Nat.compare_eq_ite_lt, Int.compare_eq_ite_lt] <;>
    (repeat' split) <;> first | rfl | omega

theorem compareReal_ofWord {s t : Bool} {M N : Nat} (hM : M < 2047 * 2 ^ 52)
    (hN : N < 2047 * 2 ^ 52) :
    Number.compareReal (ofWord s M) (ofWord t N) = some (compare (signed s M) (signed t N)) := by
  have lt_iff : ∀ {x y : Float}, x < y ↔ x.toModel.compare y.toModel = some .lt := by
    intro x y
    change decide ((x.toModel.compare y.toModel == some .lt) = true) = true ↔ _
    simp
  have eq_iff : ∀ {x y : Float}, (x == y) = true ↔ x.toModel.compare y.toModel = some .eq := by
    intro x y
    change (x.toModel.compare y.toModel == some .eq) = true ↔ _
    simp
  unfold Number.compareReal
  simp only [lt_iff, eq_iff, Float.Model.compare, unpack_ofWord hM, unpack_ofWord hN,
    compare_ofMagnitude, Option.some_inj, Int.compare_eq_lt, Int.compare_eq_eq]
  simp only [Int.compare_eq_ite_lt]
  (repeat' split) <;> first | rfl | omega

/-! ## What a magnitude stands for -/

/-- What a magnitude stands for, counted in smallest doubles. -/
def scale (M : Nat) : Nat := significand M * pow2 (M / 2 ^ 52 - 1)

/-- A significand of `2 ^ 53` carries into the exponent. -/
theorem scale_eq {k m : Nat} (hm : 2 ^ 52 ≤ m ∨ k = 0) (hm' : m ≤ 2 ^ 53) :
    scale (k * 2 ^ 52 + m) = m * pow2 k := by
  unfold scale significand
  rcases Nat.eq_or_lt_of_le hm' with rfl | hlt
  · rw [if_neg (by omega), show (k * 2 ^ 52 + 2 ^ 53) / 2 ^ 52 - 1 = k + 1 by omega,
      show (k * 2 ^ 52 + 2 ^ 53) % 2 ^ 52 = 0 by omega, pow2_succ]
    omega
  · rw [show (k * 2 ^ 52 + m) / 2 ^ 52 - 1 = k by omega]
    congr 1
    split <;> omega

theorem scale_lt_succ (M : Nat) : scale M < scale (M + 1) := by
  -- Both are multiples of the unit that belongs to the smaller one.
  obtain ⟨k, m, hm, hlt, rfl⟩ : ∃ k m, (2 ^ 52 ≤ m ∨ k = 0) ∧ m < 2 ^ 53 ∧ k * 2 ^ 52 + m = M :=
    ⟨M / 2 ^ 52 - 1, M - (M / 2 ^ 52 - 1) * 2 ^ 52, by omega, by omega, by omega⟩
  rw [Nat.add_assoc, scale_eq hm (by omega), scale_eq (by omega) hlt]
  exact Nat.mul_lt_mul_of_pos_right (by omega) (pow2_pos k)

theorem scale_lt_scale {M N : Nat} (h : M < N) : scale M < scale N := by
  induction h with
  | refl => exact scale_lt_succ M
  | step _ ih => exact Nat.lt_trans ih (scale_lt_succ _)

theorem scale_lt_iff {M N : Nat} : scale M < scale N ↔ M < N := by
  refine ⟨fun h => Nat.lt_of_not_le fun hle => ?_, scale_lt_scale⟩
  rcases Nat.eq_or_lt_of_le hle with rfl | hlt
  · exact Nat.lt_irrefl _ h
  · exact Nat.lt_asymm h (scale_lt_scale hlt)

end Binary64

end CellScript
