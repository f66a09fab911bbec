import CellScript.Proofs.Numeric.Nearest
import CellScript.Proofs.Outcome

/-!
# Comparison of integers

A relational operator turns both of its operands into doubles, integers too. So what it says of two
integers is what it says of these after rounding (`Exec.applyRelational_integers`), and a number
beyond the doubles ends the run.

Rounding keeps the order but not strictness. Therefore the answer is the one for the integers
themselves exactly if both have a double and, in case it is the same, the operator says of the two
what it says of equal ones (`integer_comparison_exact_iff`). Up to `2 ^ 53` this is always so
(`rounded_of_small`).
-/

namespace CellScript

/-- What an operator says of two integers. -/
def RelationalOp.Relates (op : RelationalOp) (x y : Int) : Prop :=
  match op with
  | .equal => x = y
  | .notEqual => x ≠ y
  | .less => x < y
  | .lessEqual => x ≤ y
  | .greater => y < x
  | .greaterEqual => y ≤ x

instance : (op : RelationalOp) → (x y : Int) → Decidable (op.Relates x y)
  | .equal, x, y => inferInstanceAs (Decidable (x = y))
  | .notEqual, x, y => inferInstanceAs (Decidable (x ≠ y))
  | .less, x, y => inferInstanceAs (Decidable (x < y))
  | .lessEqual, x, y => inferInstanceAs (Decidable (x ≤ y))
  | .greater, x, y => inferInstanceAs (Decidable (y < x))
  | .greaterEqual, x, y => inferInstanceAs (Decidable (y ≤ x))

theorem RelationalOp.holds_compare (op : RelationalOp) (x y : Int) :
    op.holds (some (compare x y)) = decide (op.Relates x y) := by
  rw [Bool.eq_iff_iff, decide_eq_true_iff, Int.compare_eq_ite_lt]
  cases op <;> simp only [Relates] <;> (repeat' split) <;> simp [holds] <;> omega

namespace Exec

variable (self : Interp) (op : RelationalOp) (line : Option Nat) {a b : Cell} {x y : Int}
  {s : State}

theorem numberOf_of_hasDouble (h : HasDouble x) :
    numberOf (.integer x) line s = .ok (.real (nearestDouble x)) s := by
  change ((ofNumber (Number.floatOfInt x)).bind fun d => pure (Number.real d)) s = _
  rw [floatOfInt_of_hasDouble h]
  rfl

theorem numberOf_of_not_hasDouble (h : ¬ HasDouble x) :
    numberOf (.integer x) line s = .error (.number .overflow) s := by
  change ((ofNumber (Number.floatOfInt x)).bind fun d => pure (Number.real d)) s = _
  rw [floatOfInt_of_not_hasDouble h]
  rfl

theorem compare?_integers (ha : s.store.get a = .integer x) (hb : s.store.get b = .integer y) :
    compare? op a b line s =
      if HasDouble x ∧ HasDouble y then .ok (some (decide (op.Relates (rounded x) (rounded y)))) s
      else .error (.number .overflow) s := by
  have numeric : compare? op a b line s =
      (do
        let m ← numberOf (.integer x) line
        let n ← numberOf (.integer y) line
        return some (op.holds (m.order n)) : Exec (Option Bool)) s := by
    unfold compare?
    rw [value_bind_apply, value_bind_apply, ha, hb]
    rfl
  rw [numeric]
  by_cases hx : HasDouble x
  · rw [bind_of_ok (numberOf_of_hasDouble line hx)]
    by_cases hy : HasDouble y
    · rw [bind_of_ok (numberOf_of_hasDouble line hy), if_pos ⟨hx, hy⟩, ← op.holds_compare,
        ← compareReal_nearestDouble hx hy]
      rfl
    · rw [bind_of_error (numberOf_of_not_hasDouble line hy), if_neg fun h => hy h.2]
  · rw [bind_of_error (numberOf_of_not_hasDouble line hx), if_neg fun h => hx h.1]

/-- A comparison of integers makes a new cell with what the operator says of the rounded ones. -/
theorem applyRelational_integers (ha : s.store.get a = .integer x)
    (hb : s.store.get b = .integer y) :
    applyRelational self op a b line s =
      if HasDouble x ∧ HasDouble y then
        newCell (.boolean (decide (op.Relates (rounded x) (rounded y)))) s
      else .error (.number .overflow) s := by
  have hcompare := compare?_integers op line ha hb
  unfold applyRelational kindOf overload?
  simp only [bind_assoc, pure_bind]
  rw [value_bind_apply, value_bind_apply, ha, hb]
  -- An integer is not undefined, and it has no operators of its own.
  change (if (op.isEquality && false) = true then _ else value a >>= _ : Exec Cell) s = _
  rw [Bool.and_false, if_neg Bool.false_ne_true, value_bind_apply, ha]
  change (compare? op a b line >>= _ : Exec Cell) s = _
  split at hcompare
  · next h =>
    rw [bind_of_ok hcompare, if_pos h]
  · next h =>
    rw [bind_of_error hcompare, if_neg h]

theorem newCell_gives (s : State) (v w : Value) :
    (∃ c t, newCell v s = .ok c t ∧ t.store.get c = w) ↔ v = w := by
  have hget := s.store.get_alloc_self v
  constructor
  · rintro ⟨c, t, hrun, hc⟩
    cases hrun
    exact hget.symm.trans hc
  · rintro rfl
    exact ⟨_, _, rfl, hget⟩

end Exec

/-! ## Exact answers -/

/-- Powers of two below the bound are doubles, and what is no larger has one. -/
theorem hasDouble_of_le {x : Int} {k : Nat} (h : x.natAbs ≤ 2 ^ k) (hk : k < 1024) :
    HasDouble x := by
  have hround : roundNat x.natAbs ≤ pow2 k := by
    have hle := roundNat_mono h
    rwa [roundNat_of_isDouble (isDouble_two_pow k)] at hle
  exact Nat.lt_of_le_of_lt hround (pow2_lt_pow2 hk)

/-- Up to `2 ^ 53` every integer is a double. -/
theorem rounded_of_small {x : Int} (h : x.natAbs ≤ 2 ^ 53) : rounded x = x := by
  have hround : roundNat x.natAbs = x.natAbs :=
    roundNat_of_isDouble ⟨x.natAbs, 0, h, (Nat.mul_one _).symm⟩
  unfold rounded signed
  rw [hround]
  by_cases hx : x < 0
  · rw [decide_eq_true hx, if_pos rfl]
    omega
  · rw [decide_eq_false hx, if_neg Bool.false_ne_true]
    omega

theorem rounded_lt_iff {x y : Int} (h : rounded x ≠ rounded y) :
    rounded x < rounded y ↔ x < y := by
  constructor
  · intro hlt
    exact Int.lt_of_not_ge fun hle => absurd (rounded_mono hle) (Int.not_le.mpr hlt)
  · intro hlt
    exact Int.lt_iff_le_and_ne.mpr ⟨rounded_mono (Int.le_of_lt hlt), h⟩

/-- Integers that are not rounded to one double are compared exactly. -/
theorem RelationalOp.relates_rounded_of_ne (op : RelationalOp) {x y : Int}
    (h : rounded x ≠ rounded y) : op.Relates (rounded x) (rounded y) ↔ op.Relates x y := by
  have hlt := rounded_lt_iff h
  have hgt := rounded_lt_iff h.symm
  have hne : x ≠ y := fun he => h (he ▸ rfl)
  cases op <;> simp only [Relates] <;> omega

theorem RelationalOp.relates_self (op : RelationalOp) (x y : Int) :
    op.Relates x x ↔ op.Relates y y := by
  cases op <;> simp only [Relates] <;> omega

/-- Of two integers an operator says what holds of them exactly if both have a double, and if it is
the same one, what holds of them is what holds of equal ones. -/
theorem integer_comparison_exact_iff (self : Interp) (op : RelationalOp) (line : Option Nat)
    {a b : Cell} {x y : Int} {s : State} (ha : s.store.get a = .integer x)
    (hb : s.store.get b = .integer y) :
    (∃ c t, Exec.applyRelational self op a b line s = .ok c t ∧
        t.store.get c = .boolean (decide (op.Relates x y))) ↔
      HasDouble x ∧ HasDouble y ∧ (rounded x = rounded y → (op.Relates x y ↔ op.Relates x x)) := by
  rw [Exec.applyRelational_integers self op line ha hb]
  by_cases h : HasDouble x ∧ HasDouble y
  · rw [if_pos h, Exec.newCell_gives, Value.boolean.injEq, decide_eq_decide]
    by_cases he : rounded x = rounded y
    · rw [he, op.relates_self (rounded y) x]
      exact ⟨fun hexact => ⟨h.1, h.2, fun _ => hexact.symm⟩, fun hexact => (hexact.2.2 rfl).symm⟩
    · exact ⟨fun _ => ⟨h.1, h.2, fun he' => absurd he' he⟩, fun _ => op.relates_rounded_of_ne he⟩
  · rw [if_neg h]
    exact ⟨fun ⟨_, _, hrun, _⟩ => (nomatch hrun), fun hexact => absurd ⟨hexact.1, hexact.2.1⟩ h⟩

/-- A state with two integers in its first two cells. -/
def comparedState (x y : Int) : State :=
  { State.initial 200 with store := ((Store.empty.alloc (.integer x)).2.alloc (.integer y)).2 }

theorem integer_comparison_exact_iff_apart :
    let self : Interp := Interp.withFuel (fun _ => return none) 0
    let s := comparedState (2 ^ 53) (2 ^ 53 + 2)
    ∃ c t, Exec.applyRelational self .less ⟨0⟩ ⟨1⟩ none s = .ok c t ∧
      t.store.get c = .boolean true := by
  intro self s
  have apart : rounded (2 ^ 53) ≠ rounded (2 ^ 53 + 2) := by decide
  exact (integer_comparison_exact_iff self .less none (s := s) rfl rfl).mpr
    ⟨hasDouble_of_le (k := 54) (by decide) (by decide),
      hasDouble_of_le (k := 54) (by decide) (by decide), fun he => absurd he apart⟩

/-- Above `2 ^ 53` different integers are found to be equal. -/
theorem adjacent_integers_equal :
    let self : Interp := Interp.withFuel (fun _ => return none) 0
    let s := comparedState (2 ^ 53 + 1) (2 ^ 53)
    ¬ RelationalOp.equal.Relates (2 ^ 53 + 1) (2 ^ 53) ∧
      ∃ c t, Exec.applyRelational self .equal ⟨0⟩ ⟨1⟩ none s = .ok c t ∧
        t.store.get c = .boolean true := by
  intro self s
  have inRange : HasDouble (2 ^ 53 + 1) ∧ HasDouble (2 ^ 53) :=
    ⟨hasDouble_of_le (k := 54) (by decide) (by decide),
      hasDouble_of_le (k := 53) (by decide) (by decide)⟩
  have meet : RelationalOp.equal.Relates (rounded (2 ^ 53 + 1)) (rounded (2 ^ 53)) := by decide
  refine ⟨by decide, ?_⟩
  rw [Exec.applyRelational_integers self .equal none (s := s) rfl rfl, if_pos inRange,
    Exec.newCell_gives, decide_eq_true meet]

end CellScript
