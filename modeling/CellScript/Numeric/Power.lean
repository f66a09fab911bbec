/-!
# Powers of two and of ten

The scales of binary and of decimal numbers.
-/

namespace CellScript

/-- A power of two. -/
def pow2 (k : Nat) : Nat := Nat.pow 2 k

/-- A power of ten. -/
def pow10 (k : Nat) : Nat := Nat.pow 10 k

theorem pow2_succ (k : Nat) : pow2 (k + 1) = pow2 k * 2 := rfl

theorem pow2_add (a b : Nat) : pow2 (a + b) = pow2 a * pow2 b := Nat.pow_add 2 a b

theorem pow2_pos (k : Nat) : 0 < pow2 k := Nat.pow_pos (by decide)

theorem pow2_lt_pow2 {a b : Nat} (h : a < b) : pow2 a < pow2 b :=
  Nat.pow_lt_pow_right (by decide) h

end CellScript
