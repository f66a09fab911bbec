import CellScript.Proofs.Binding.Framing
import CellScript.Proofs.Congruence.Fuel
import CellScript.Session

/-!
# More fuel

What a run with little fuel comes to does not change with more of it, unless it was a want of fuel.
This is not only a matter of passing the failure on: a scope that could not be removed on the way
out would be another failure in its place. So the relation between the runs says of the first one
that it leaves the scopes steady, which is `framing` with a want of fuel for giving up and no names
to spare.

* `Interp.outlasts`: the interpreter with less fuel is related to the one with more;
* `Exec.Lasting`: a step by its fuel, and `Exec.Halts`, `Exec.Gives`: what it comes to with enough;
* `Exec.Lasting.halts_bind`: two steps come to an end if the first one does, and the second one
  where the first one leads.
-/

namespace CellScript

open Exec (Framed FramedAlways failure?)

theorem Failure.passedOn_outOfFuel : Failure.PassedOn .outOfFuel := fun _ => ⟨rfl, rfl⟩

/-- The second step does what the first one does, which may run out of fuel. -/
abbrev Exec.Outlasted {α : Type} (x y : Exec α) : Prop :=
  FramedAlways .outOfFuel (fun _ => False) (fun _ => True) x y

/-- The logic of runs that may run out of fuel. -/
abbrev outlasting : ProgramLogic (.sparing fun _ => False) :=
  framing Failure.passedOn_outOfFuel fun _ => False

theorem outlasting_starves : outlasting.Starves where
  full := Fragment.making_full _
  creates _ := id
  exhausted := trivial
  starved _ := .given _
  frames := .read fun _ => trivial
  readFlags _ := .read fun _ => trivial
  clear _ := .update (fun _ => rfl) (fun _ => rfl) fun _ => rfl

/-- The interpreter with more fuel does what the one with less does. -/
theorem Interp.outlasts {host : Host} (hh : Host.Steady (fun _ => False) host) {m n : Nat}
    (hmn : m ≤ n) :
    outlasting.AgreeOn .any (Interp.withFuel host m) (Interp.withFuel host n) ∧
      ∀ frames c line, Exec.Outlasted ((Interp.withFuel host m).text frames c line)
        ((Interp.withFuel host n).text frames c line) :=
  outlasting_starves.agreeOn_of_le (fun on => framed_invokeWith hh on) hmn

/-! ## Coming to an end -/

namespace Exec

variable {α β : Type}

/-- A step by its fuel, where more fuel does not change what it comes to. -/
def Lasting (x : Nat → Exec α) : Prop := ∀ ⦃m n : Nat⦄, m ≤ n → Outlasted (x m) (x n)

/-- With some fuel, the step has this result and ends in this state. -/
def Gives (x : Nat → Exec α) (s : State) (a : α) (t : State) : Prop :=
  ∃ fuel, x fuel s = .ok a t

/-- If the first step runs out of fuel, then so do both. -/
theorem failure?_of_bind {x : Exec α} {f : α → Exec β} {s : State}
    (h : failure? ((x >>= f) s) ≠ some .outOfFuel) : failure? (x s) ≠ some .outOfFuel := by
  cases hx : x s with
  | ok a t => simp [failure?]
  | error e t => rwa [bind_of_error hx] at h

namespace Lasting

variable {x y : Nat → Exec α} {s t u : State}

theorem pure (a : α) : Lasting fun _ => (pure a : Exec α) := fun _ _ _ => .pure trivial

/-- Fuel that was enough stays enough. -/
theorem eq_of_le (hx : Lasting x) {m n : Nat} (hm : failure? (x m s) ≠ some .outOfFuel)
    (hmn : m ≤ n) : x n s = x m s :=
  (((hx hmn).same s trivial).resolve_left hm).symm

/-- What the step comes to with this fuel is what it comes to with enough. -/
theorem eq_of_gives (hx : Lasting x) {n : Nat} {a : α} (h : Gives x s a t)
    (hn : failure? (x n s) ≠ some .outOfFuel) : x n s = .ok a t := by
  obtain ⟨m, hm⟩ := h
  rw [← hx.eq_of_le hn (Nat.le_max_left n m), ← hm]
  exact hx.eq_of_le (by simp [hm, failure?]) (Nat.le_max_right n m)

theorem gives_unique (hx : Lasting x) {a b : α} (h : Gives x s a t) (h' : Gives x s b u) :
    a = b ∧ t = u := by
  obtain ⟨n, hn⟩ := h'
  have same := hx.eq_of_gives h (n := n) (by simp [hn, failure?])
  rw [hn] at same
  cases same
  exact ⟨rfl, rfl⟩

end Lasting

/-! ## Scripts -/

/-- The first step runs out of fuel or does what the second one does. -/
def UpToFuel (x y : Exec α) : Prop := ∀ s, failure? (x s) = some .outOfFuel ∨ x s = y s

namespace UpToFuel

theorem refl (x : Exec α) : UpToFuel x x := fun _ => .inr rfl

theorem trans {x y z : Exec α} (h : UpToFuel x y) (h' : UpToFuel y z) : UpToFuel x z := by
  intro s
  rcases h s with starved | same
  · exact .inl starved
  · rw [same]
    exact h' s

theorem bind {x y : Exec α} {f g : α → Exec β} (hx : UpToFuel x y)
    (hf : ∀ a, UpToFuel (f a) (g a)) : UpToFuel (x >>= f) (y >>= g) := by
  intro s
  rcases hx s with starved | same
  · left
    refine Classical.byContradiction fun enough => failure?_of_bind enough starved
  · cases h : x s with
    | ok a t =>
      rw [bind_of_ok h, bind_of_ok (same ▸ h)]
      exact hf a t
    | error e t =>
      rw [bind_of_error h, bind_of_error (same ▸ h)]
      exact .inr rfl

theorem overrun {x y : Exec α} (h : UpToFuel x y) (line : Option Nat) :
    UpToFuel (mapFailure (overrun line) x) (mapFailure (overrun line) y) := by
  intro s
  unfold mapFailure
  rcases h s with starved | same
  · cases hx : x s with
    | ok a t => simp [hx, failure?] at starved
    | error e t =>
      rw [hx, failure?, Option.some.injEq] at starved
      rw [starved]
      exact .inl rfl
  · rw [same]
    exact .inr rfl

theorem withFrames {x y : Exec α} (h : UpToFuel x y) :
    UpToFuel (withFrames x) (withFrames y) := by
  have finished (f : State → State) :
      UpToFuel (ensuring x (modify f)) (ensuring y (modify f)) := by
    intro s
    unfold ensuring
    rcases h s with starved | same
    · cases hx : x s with
      | ok a t => simp [hx, failure?] at starved
      | error e t =>
        rw [hx] at starved
        exact .inl starved
    · rw [same]
      exact .inr rfl
  refine (refl get).bind fun s => ?_
  dsimp only
  split
  · exact refl _
  · split
    · exact refl _
    · exact (refl _).bind fun _ => finished _

/-- What a run of a script does around the script's declarations and statements. -/
theorem inScript {x y : Exec Unit} (h : UpToFuel x y) :
    UpToFuel (do beginScript; mapFailure (Exec.overrun none) (Exec.withFrames x); endScript)
      (do beginScript; mapFailure (Exec.overrun none) (Exec.withFrames y); endScript) :=
  (refl _).bind fun _ => (h.withFrames.overrun none).bind fun _ => refl _

end UpToFuel

end Exec

end CellScript
