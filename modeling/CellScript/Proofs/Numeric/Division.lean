import CellScript.Proofs.Numeric.Comparison

/-!
# Division of integers

The quotient of two integers is the quotient of their magnitudes, negative if one of the two is. The
remainder is what the quotient leaves of the dividend. Together they are the result of a division
that rounds toward zero (`TruncatesTo`), and nothing else is (`TruncatesTo.unique`).

* `Exec.applyArithmetic_integers`: an operator on two integers makes a new cell, or fails as the
  operation on the numbers does;
* `integer_division_truncates`: what `/` and `%` give.
-/

namespace CellScript

/-! ## Numbers -/

/-- `x` divided by `y` is `q`, rounded toward zero, and `r` is left. -/
structure TruncatesTo (x y q r : Int) : Prop where
  restores : x = q * y + r
  small : r.natAbs < y.natAbs
  sided : r = 0 ∨ r.sign = x.sign

/-- The quotient goes by the magnitudes, and is negative if one of the two numbers is. -/
theorem tdiv_eq_signed (x y : Int) :
    x.tdiv y = signed (decide (x < 0) != decide (y < 0)) (x.natAbs / y.natAbs) := by
  have notNegative (n : Nat) : decide ((n : Int) < 0) = false := decide_eq_false (by omega)
  have negative (n : Nat) : decide (Int.negSucc n < 0) = true := decide_eq_true (by omega)
  cases x with
  | ofNat m =>
    cases y with
    | ofNat n => simp only [Int.ofNat_eq_natCast, notNegative]; rfl
    | negSucc n => simp only [Int.ofNat_eq_natCast, notNegative, negative]; rfl
  | negSucc m =>
    cases y with
    | ofNat n => simp only [Int.ofNat_eq_natCast, notNegative, negative]; rfl
    | negSucc n => simp only [negative]; rfl

/-- The quotient is that of the library, which drops the fraction. -/
theorem Exec.truncatedQuotient_eq (x : Int) {y : Int} (hy : y ≠ 0) :
    truncatedQuotient x y = .ok (x.tdiv y) := by
  have hzero : (y == 0) = false := beq_eq_false_iff_ne.mpr hy
  rw [tdiv_eq_signed, truncatedQuotient, hzero, signed]
  cases hsides : (decide (x < 0) == decide (y < 0)) <;> simp [bne, hsides]

theorem truncatesTo_tdiv (x : Int) {y : Int} (hy : y ≠ 0) :
    TruncatesTo x y (x.tdiv y) (x - y * x.tdiv y) := by
  rw [← Int.tmod_def]
  refine ⟨(Int.tdiv_mul_add_tmod x y).symm, ?_, ?_⟩
  · rw [Int.natAbs_tmod]
    exact Nat.mod_lt _ (Int.natAbs_pos.2 hy)
  · have hsign := Int.sign_tmod x y
    split at hsign
    · exact .inl (Int.sign_eq_zero_iff_zero.1 hsign)
    · exact .inr hsign

/-- The remainder is on the side of the dividend. -/
theorem TruncatesTo.side {x y q r : Int} (h : TruncatesTo x y q r) :
    (0 ≤ x → 0 ≤ r) ∧ (x ≤ 0 → r ≤ 0) := by
  rcases h.sided with rfl | hsign
  · exact ⟨fun _ => Int.le_refl 0, fun _ => Int.le_refl 0⟩
  · rw [← Int.sign_nonneg_iff (x := x), ← Int.sign_nonpos_iff (x := x), ← hsign,
      Int.sign_nonneg_iff, Int.sign_nonpos_iff]
    exact ⟨id, id⟩

/-- Two remainders on one side are less than the divisor apart, so that there is only one
quotient. -/
theorem TruncatesTo.unique {x y q r p s : Int} (h : TruncatesTo x y q r)
    (h' : TruncatesTo x y p s) : p = q ∧ s = r := by
  have apart : (q - p) * y = s - r := by
    have restored := h.restores.symm.trans h'.restores
    rw [Int.sub_mul]
    omega
  have near : (s - r).natAbs < y.natAbs := by
    have small := h.small
    have small' := h'.small
    have side := h.side
    have side' := h'.side
    omega
  have same : q = p := by
    by_contra hne
    have least := Nat.mul_le_mul_right y.natAbs (show 1 ≤ (q - p).natAbs by omega)
    rw [← Int.natAbs_mul, apart] at least
    omega
  rw [same, Int.sub_self, Int.zero_mul] at apart
  exact ⟨same.symm, by omega⟩

/-! ## Operators -/

namespace Exec

variable (self : Interp) (op : ArithmeticOp) (line : Option Nat) {a b : Cell} {x y : Int}
  {s : State}

/-- An operator on two integers computes with the numbers and makes a new cell. -/
theorem applyArithmetic_integers (ha : s.store.get a = .integer x)
    (hb : s.store.get b = .integer y) :
    applyArithmetic self op a b line s =
      (ofQuotient (integerArithmetic op x y) line >>= fun n => newCell (.integer n)) s := by
  have noText : involvesText a b s = .ok false s := by
    unfold involvesText kindOf
    simp only [bind_assoc, pure_bind]
    rw [value_bind_apply, value_bind_apply, ha, hb]
    rfl
  have computed (k : Option Cell → Exec Cell) (hk : ∀ c, k (some c) = pure c) :
      (arithmetic? op a b line >>= k) s =
        (ofQuotient (integerArithmetic op x y) line >>= fun n => newCell (.integer n)) s := by
    unfold arithmetic?
    simp only [bind_assoc]
    rw [value_bind_apply, value_bind_apply, ha, hb]
    simp only [bind_assoc, pure_bind, hk, bind_pure]
  unfold applyArithmetic overload?
  simp only [bind_assoc]
  rw [value_bind_apply, ha]
  simp only [pure_bind]
  split
  · rw [bind_of_ok noText, if_neg Bool.false_ne_true]
    exact computed _ fun _ => rfl
  · exact computed _ fun _ => rfl

/-- The quotient and the remainder of two integers are integers, unless the divisor is zero. -/
theorem applyArithmetic_division (ha : s.store.get a = .integer x)
    (hb : s.store.get b = .integer y) (hop : op = .div ∨ op = .mod) :
    applyArithmetic self op a b line s =
      if y = 0 then .error (.script .divisionByZero line) s
      else newCell (.integer (if op = .div then x.tdiv y else x - y * x.tdiv y)) s := by
  rw [applyArithmetic_integers self op line ha hb]
  by_cases hy : y = 0
  · rw [if_pos hy]
    subst hy
    rcases hop with rfl | rfl <;> rfl
  · rw [if_neg hy]
    rcases hop with rfl | rfl <;> simp only [integerArithmetic, truncatedQuotient_eq x hy] <;> rfl

/-- An operator that divides fails with a division by zero, exactly if the divisor is zero. -/
theorem applyArithmetic_division_fails (ha : s.store.get a = .integer x)
    (hb : s.store.get b = .integer y) (hop : op = .div ∨ op = .mod) (f : Failure) (t : State) :
    applyArithmetic self op a b line s = .error f t ↔
      y = 0 ∧ f = .script .divisionByZero line ∧ t = s := by
  rw [applyArithmetic_division self op line ha hb hop]
  by_cases hy : y = 0
  · rw [if_pos hy]
    exact ⟨fun h => by cases h; exact ⟨hy, rfl, rfl⟩, fun ⟨_, hf, ht⟩ => by rw [hf, ht]⟩
  · rw [if_neg hy]
    exact ⟨fun h => (nomatch h), fun h => absurd h.1 hy⟩

end Exec

/-- `/` and `%` on integers, of any size, fail exactly if the divisor is zero, with that message.
Else they give the quotient of the magnitudes, negative if one of the two numbers is, and the
remainder; these, and no other integers, are the division of the two rounded toward zero. -/
theorem integer_division_truncates (self : Interp) (line : Option Nat) {a b : Cell} {x y : Int}
    {s : State} (ha : s.store.get a = .integer x) (hb : s.store.get b = .integer y) :
    (∀ op, op = .div ∨ op = .mod → ∀ f t,
      Exec.applyArithmetic self op a b line s = .error f t ↔
        y = 0 ∧ f = .script .divisionByZero line ∧ t = s) ∧
    Cause.message .divisionByZero = "division by zero" ∧
    (y ≠ 0 → ∃ q r,
      (∃ c t, Exec.applyArithmetic self .div a b line s = .ok c t ∧
        t.store.get c = .integer q) ∧
      (∃ c t, Exec.applyArithmetic self .mod a b line s = .ok c t ∧
        t.store.get c = .integer r) ∧
      q = signed (decide (x < 0) != decide (y < 0)) (x.natAbs / y.natAbs) ∧
      TruncatesTo x y q r ∧ ∀ p u, TruncatesTo x y p u → p = q ∧ u = r) := by
  refine ⟨fun op hop f t => Exec.applyArithmetic_division_fails self op line ha hb hop f t, rfl,
    fun hy => ⟨x.tdiv y, x - y * x.tdiv y, ?_, ?_, tdiv_eq_signed x y, truncatesTo_tdiv x hy,
      fun _ _ h => (truncatesTo_tdiv x hy).unique h⟩⟩
  · rw [Exec.applyArithmetic_division self .div line ha hb (.inl rfl), if_neg hy,
      Exec.newCell_gives, if_pos rfl]
  · rw [Exec.applyArithmetic_division self .mod line ha hb (.inr rfl), if_neg hy,
      Exec.newCell_gives, if_neg (by decide)]

theorem integer_division_truncates_negative :
    let self : Interp := Interp.withFuel (fun _ => return none) 0
    let s := comparedState (-7) 2
    (∃ c t, Exec.applyArithmetic self .div ⟨0⟩ ⟨1⟩ none s = .ok c t ∧
      t.store.get c = .integer (-3)) ∧
    ∃ c t, Exec.applyArithmetic self .mod ⟨0⟩ ⟨1⟩ none s = .ok c t ∧
      t.store.get c = .integer (-1) := by
  intro self s
  obtain ⟨_, _, hquot⟩ := integer_division_truncates self none
    (a := ⟨0⟩) (b := ⟨1⟩) (x := -7) (y := 2) (s := s) rfl rfl
  obtain ⟨q, r, hdiv, hmod, _, _, honly⟩ := hquot (by decide)
  obtain ⟨rfl, rfl⟩ := honly (-3) (-1) ⟨by decide, by decide, by decide⟩
  exact ⟨hdiv, hmod⟩

end CellScript
