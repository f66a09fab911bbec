import CellScript.Proofs.Numeric.Bits

/-!
# The double nearest to an integer

`Number.floatOfInt` is the correctly rounded conversion: with `roundNat n` the natural number that
the result stands for, no number of at most 53 binary digits before its zeros is nearer to `n`
(`roundNat_nearest`), and such numbers are kept (`roundNat_of_isDouble`). Therefore rounding keeps
the order, though not strictly (`rounded_mono`).

The conversion fails exactly if the rounded number reaches `2 ^ 1024` (`floatOfInt_eq`), and the
doubles that it makes are ordered as the integers that they stand for (`compareReal_nearest`).
-/

namespace CellScript

/-! ## Rounded quotients -/

/-- The distance between two natural numbers. -/
def distance (a b : Nat) : Nat := (a - b) + (b - a)

theorem roundDiv_bounds (num : Nat) {den : Nat} (h : 0 < den) :
    2 * num ≤ 2 * (roundDiv num den * den) + den ∧
      2 * (roundDiv num den * den) ≤ 2 * num + den := by
  have hq := Nat.div_add_mod num den
  have hr := Nat.mod_lt num h
  have hc : den * (num / den) = num / den * den := Nat.mul_comm ..
  simp only [roundDiv]
  split
  · omega
  · split
    · rw [Nat.add_mul, Nat.one_mul]; omega
    · rcases Nat.mod_two_eq_zero_or_one (num / den) with h2 | h2
      · rw [h2, Nat.add_zero]; omega
      · rw [h2, Nat.add_mul, Nat.one_mul]; omega

/-- No multiple of the divisor is nearer than the rounded quotient's. -/
theorem roundDiv_nearest (num : Nat) {den : Nat} (h : 0 < den) (k : Nat) :
    distance num (roundDiv num den * den) ≤ distance num (k * den) := by
  obtain ⟨low, high⟩ := roundDiv_bounds num h
  unfold distance
  rcases Nat.lt_trichotomy k (roundDiv num den) with hk | rfl | hk
  · have : (k + 1) * den ≤ roundDiv num den * den := Nat.mul_le_mul_right _ hk
    rw [Nat.add_mul, Nat.one_mul] at this
    omega
  · exact Nat.le_refl _
  · have : (roundDiv num den + 1) * den ≤ k * den := Nat.mul_le_mul_right _ hk
    rw [Nat.add_mul, Nat.one_mul] at this
    omega

theorem roundDiv_one (n : Nat) : roundDiv n 1 = n := by simp [roundDiv, Nat.mod_one]

theorem roundDiv_le {num den : Nat} (h : 0 < den) {k : Nat} (hk : num ≤ k * den) :
    roundDiv num den ≤ k := by
  obtain ⟨low, high⟩ := roundDiv_bounds num h
  refine Nat.le_of_not_lt fun hlt => ?_
  have hstep : (k + 1) * den ≤ roundDiv num den * den := Nat.mul_le_mul_right _ (by omega)
  rw [Nat.add_mul, Nat.one_mul] at hstep
  omega

/-! ## The nearest whole double -/

/-- The distance of the doubles next to a natural number, if these are whole. -/
def ulp (n : Nat) : Nat := 2 ^ (n.log2 - 52)

/-- The whole double nearest to a natural number, however large. -/
def roundNat (n : Nat) : Nat := roundDiv n (ulp n) * ulp n

/-- Natural numbers with at most 53 binary digits before their zeros. -/
def IsDouble (v : Nat) : Prop := ∃ m e, m ≤ 2 ^ 53 ∧ v = m * 2 ^ e

theorem ulp_pos (n : Nat) : 0 < ulp n := Nat.two_pow_pos _

theorem isDouble_roundNat (n : Nat) : IsDouble (roundNat n) := by
  refine ⟨_, _, roundDiv_le (ulp_pos n) ?_, rfl⟩
  have hlog : n < 2 ^ (n.log2 + 1) := Nat.lt_log2_self
  calc n ≤ 2 ^ (n.log2 + 1) := Nat.le_of_lt hlog
    _ ≤ 2 ^ (53 + (n.log2 - 52)) := Nat.pow_le_pow_right (by decide) (by omega)
    _ = 2 ^ 53 * ulp n := Nat.pow_add ..

theorem roundNat_nearest (n : Nat) {v : Nat} (hv : IsDouble v) :
    distance n (roundNat n) ≤ distance n v := by
  obtain ⟨m, e, hm, rfl⟩ := hv
  by_cases hz : n = 0
  · subst hz; simp [roundNat, ulp, roundDiv, distance]
  by_cases he : n.log2 - 52 ≤ e
  · obtain ⟨d, rfl⟩ := Nat.exists_eq_add_of_le he
    have : m * 2 ^ (n.log2 - 52 + d) = (m * 2 ^ d) * ulp n := by
      rw [ulp, Nat.pow_add, Nat.mul_assoc, Nat.mul_comm (2 ^ d)]
    rw [this]
    exact roundDiv_nearest n (ulp_pos n) _
  · -- Below its leading power of two the number has no double nearer than that power.
    have hlow : 2 ^ n.log2 ≤ n := Nat.log2_self_le hz
    have hpow : 2 ^ n.log2 = 2 ^ 52 * ulp n := by
      rw [ulp, ← Nat.pow_add]; congr 1; omega
    have hbelow : m * 2 ^ e ≤ 2 ^ n.log2 :=
      calc m * 2 ^ e ≤ 2 ^ 53 * 2 ^ e := Nat.mul_le_mul_right _ hm
        _ = 2 ^ (53 + e) := (Nat.pow_add ..).symm
        _ ≤ 2 ^ n.log2 := Nat.pow_le_pow_right (by decide) (by omega)
    have := roundDiv_nearest n (ulp_pos n) (2 ^ 52)
    rw [← hpow] at this
    unfold roundNat distance at *
    omega

theorem roundNat_of_isDouble {n : Nat} (h : IsDouble n) : roundNat n = n := by
  have := roundNat_nearest n h
  unfold distance at this
  omega

theorem roundNat_mono {n m : Nat} (h : n ≤ m) : roundNat n ≤ roundNat m := by
  have h₁ := roundNat_nearest n (isDouble_roundNat m)
  have h₂ := roundNat_nearest m (isDouble_roundNat n)
  rcases Nat.eq_or_lt_of_le h with rfl | h
  · exact Nat.le_refl _
  · unfold distance at h₁ h₂
    omega

theorem isDouble_two_pow (k : Nat) : IsDouble (2 ^ k) := ⟨1, k, by decide, (Nat.one_mul _).symm⟩

theorem roundNat_bounds {n : Nat} (hz : n ≠ 0) :
    2 ^ n.log2 ≤ roundNat n ∧ roundNat n ≤ 2 ^ (n.log2 + 1) := by
  have low := roundNat_mono (Nat.log2_self_le hz)
  have high := roundNat_mono (Nat.le_of_lt (Nat.lt_log2_self (n := n)))
  rw [roundNat_of_isDouble (isDouble_two_pow _)] at low high
  exact ⟨low, high⟩

/-! ## The magnitude of the nearest double -/

namespace Binary64

/-- The 53 digits of the double nearest to a positive number. -/
def nearestSignificand (n : Nat) : Nat :=
  if n.log2 ≤ 52 then n * 2 ^ (52 - n.log2) else roundDiv n (ulp n)

/-- The lower bits of the double nearest to a natural number. -/
def nearestMagnitude (n : Nat) : Nat :=
  if n = 0 then 0 else (n.log2 + 1022) * 2 ^ 52 + nearestSignificand n

theorem roundNat_of_log2_le {n : Nat} (h : n.log2 ≤ 52) : roundNat n = n := by
  rw [roundNat, ulp, Nat.sub_eq_zero_of_le h, Nat.pow_zero, roundDiv_one, Nat.mul_one]

theorem nearestSignificand_mul (n : Nat) :
    nearestSignificand n * 2 ^ n.log2 = 2 ^ 52 * roundNat n := by
  unfold nearestSignificand
  split
  · next h =>
    rw [roundNat_of_log2_le h, Nat.mul_assoc, ← Nat.pow_add, Nat.sub_add_cancel h, Nat.mul_comm]
  · next h =>
    have hpow : 2 ^ n.log2 = 2 ^ 52 * ulp n := by
      rw [ulp, ← Nat.pow_add, Nat.add_sub_cancel' (by omega)]
    rw [roundNat, hpow, Nat.mul_left_comm]

theorem nearestSignificand_bounds {n : Nat} (hz : n ≠ 0) :
    2 ^ 52 ≤ nearestSignificand n ∧ nearestSignificand n ≤ 2 ^ 53 := by
  obtain ⟨low, high⟩ := roundNat_bounds hz
  have hpos := Nat.two_pow_pos n.log2
  constructor <;> refine Nat.le_of_mul_le_mul_right ?_ hpos <;> rw [nearestSignificand_mul]
  · exact Nat.mul_le_mul_left _ low
  · rw [Nat.pow_succ] at high
    omega

theorem scale_nearestMagnitude (n : Nat) :
    scale (nearestMagnitude n) = roundNat n * pow2 1074 := by
  by_cases hz : n = 0
  · have hround : roundNat 0 = 0 := roundNat_of_log2_le (by decide)
    rw [hz, hround, Nat.zero_mul]
    rfl
  · obtain ⟨low, high⟩ := nearestSignificand_bounds hz
    calc scale (nearestMagnitude n)
        = nearestSignificand n * pow2 (n.log2 + 1022) := by
          rw [nearestMagnitude, if_neg hz, scale_eq (.inl low) high]
      _ = pow2 52 * roundNat n * pow2 1022 := by
          rw [pow2_add, ← Nat.mul_assoc]
          congr 1
          exact nearestSignificand_mul n
      _ = roundNat n * pow2 (52 + 1022) := by
          rw [pow2_add, Nat.mul_comm (pow2 52), Nat.mul_assoc]

theorem nearestMagnitude_lt_iff {n m : Nat} :
    nearestMagnitude n < nearestMagnitude m ↔ roundNat n < roundNat m := by
  rw [← scale_lt_iff, scale_nearestMagnitude, scale_nearestMagnitude]
  exact Nat.mul_lt_mul_right (pow2_pos 1074)

theorem nearestMagnitude_lt_bound_iff {n : Nat} :
    nearestMagnitude n < 2047 * 2 ^ 52 ↔ roundNat n < pow2 1024 := by
  have hbound : scale (2047 * 2 ^ 52) = pow2 1024 * pow2 1074 := by
    have h := scale_eq (k := 2046) (m := pow2 52) (.inl (Nat.le_refl _)) (by decide)
    rw [← pow2_add] at h ⊢
    exact h
  rw [← scale_lt_iff, scale_nearestMagnitude, hbound]
  exact Nat.mul_lt_mul_right (pow2_pos 1074)

/-! ## The conversion -/

theorem assemble_eq (s : Bool) (m : Nat) (e : Int) :
    assemble s m e = ofWord s ((e - minExponent).toNat * 2 ^ 52 + m) := rfl

theorem logRatio_one {n : Nat} (hz : n ≠ 0) : logRatio n 1 = n.log2 := by
  have hlow : ¬ n < pow2 n.log2 := Nat.not_lt.mpr (Nat.log2_self_le hz)
  have hlog : Nat.log2 1 = 0 := by decide
  simp only [logRatio, hlog, Int.natCast_zero, Int.sub_zero, Int.natCast_nonneg, if_true,
    Int.toNat_natCast, Nat.one_mul, hlow, if_false]

theorem nearest?_one (s : Bool) (n : Nat) :
    nearest? s n 1 =
      if roundNat n < pow2 1024 then some (ofWord s (nearestMagnitude n)) else none := by
  simp only [← nearestMagnitude_lt_bound_iff]
  by_cases hz : n = 0
  · subst hz
    rfl
  have hexp : max ((n.log2 : Int) - 52) minExponent = n.log2 - 52 := by
    unfold minExponent
    omega
  have hplace : ((n.log2 : Int) - 52 - minExponent).toNat = n.log2 + 1022 := by
    unfold minExponent
    omega
  have hsig : (if 0 ≤ (n.log2 : Int) - 52 then roundDiv n (1 * pow2 ((n.log2 : Int) - 52).toNat)
      else roundDiv (n * pow2 (-((n.log2 : Int) - 52)).toNat) 1) = nearestSignificand n := by
    rw [roundDiv_one, Nat.one_mul]
    unfold nearestSignificand
    rcases Nat.lt_trichotomy n.log2 52 with h | h | h
    · have hshift : (-((n.log2 : Int) - 52)).toNat = 52 - n.log2 := by omega
      rw [if_neg (by omega), if_pos (by omega), hshift]
      rfl
    · rw [if_pos (by omega), if_pos (by omega), h]
      simp [pow2, roundDiv_one]
    · have hshift : ((n.log2 : Int) - 52).toNat = n.log2 - 52 := by omega
      rw [if_pos (by omega), if_neg (by omega), hshift]
      rfl
  simp only [nearest?, logRatio_one hz, hexp, hsig, assemble_eq, hplace, beq_iff_eq, hz, if_false,
    nearestMagnitude]
  rfl

end Binary64

/-- The integer that the double nearest to an integer stands for, however large. -/
def rounded (n : Int) : Int := signed (n < 0) (roundNat n.natAbs)

theorem rounded_mono {x y : Int} (h : x ≤ y) : rounded x ≤ rounded y := by
  unfold rounded signed
  by_cases hx : x < 0 <;> by_cases hy : y < 0 <;>
    simp only [hx, hy, decide_true, decide_false, if_true, if_false, Bool.false_eq_true]
  · have := roundNat_mono (n := y.natAbs) (m := x.natAbs) (by omega)
    omega
  · omega
  · omega
  · have := roundNat_mono (n := x.natAbs) (m := y.natAbs) (by omega)
    omega

/-- The nearest double itself. -/
def nearestDouble (n : Int) : Float :=
  Binary64.ofWord (n < 0) (Binary64.nearestMagnitude n.natAbs)

/-- Whether rounding an integer keeps it below the end of the doubles. -/
def HasDouble (n : Int) : Prop := roundNat n.natAbs < pow2 1024

instance (n : Int) : Decidable (HasDouble n) := inferInstanceAs (Decidable (_ < _))

theorem floatOfInt_of_hasDouble {n : Int} (h : HasDouble n) :
    Number.floatOfInt n = .ok (nearestDouble n) := by
  unfold HasDouble at h
  rw [Number.floatOfInt, Binary64.nearest?_one, if_pos h]
  rfl

theorem floatOfInt_of_not_hasDouble {n : Int} (h : ¬ HasDouble n) :
    Number.floatOfInt n = .error .overflow := by
  unfold HasDouble at h
  rw [Number.floatOfInt, Binary64.nearest?_one, if_neg h]

/-- The order of signed magnitudes depends on the order of the magnitudes only. -/
theorem compare_signed {M N M' N' : Nat} (hlt : M < N ↔ M' < N') (hgt : N < M ↔ N' < M')
    (hM : 0 < M ↔ 0 < M') (hN : 0 < N ↔ 0 < N') (s t : Bool) :
    compare (signed s M) (signed t N) = compare (signed s M') (signed t N') := by
  cases s <;> cases t <;>
    simp only [signed, if_true, Bool.false_eq_true, if_false, Int.compare_eq_ite_lt] <;>
    (repeat' split) <;> first | rfl | omega

/-- The doubles nearest to two integers are ordered as the integers that they stand for. -/
theorem compareReal_nearestDouble {x y : Int} (hx : HasDouble x) (hy : HasDouble y) :
    Number.compareReal (nearestDouble x) (nearestDouble y) =
      some (compare (rounded x) (rounded y)) := by
  have positive : ∀ n, 0 < Binary64.nearestMagnitude n ↔ 0 < roundNat n := fun n => by
    have hzero : roundNat 0 = 0 := Binary64.roundNat_of_log2_le (by decide)
    rw [← hzero]
    exact Binary64.nearestMagnitude_lt_iff (n := 0)
  unfold nearestDouble rounded
  rw [Binary64.compareReal_ofWord (Binary64.nearestMagnitude_lt_bound_iff.mpr hx)
    (Binary64.nearestMagnitude_lt_bound_iff.mpr hy),
    compare_signed Binary64.nearestMagnitude_lt_iff Binary64.nearestMagnitude_lt_iff (positive _)
      (positive _)]

end CellScript
