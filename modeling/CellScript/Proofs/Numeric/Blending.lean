import Mathlib.Tactic.Ring
import Mathlib.Algebra.Order.Field.Rat
import CellScript.Eval.Library
import CellScript.Proofs.Outcome

/-!
# Blending with exact components

Laying a color over another one should give the alpha `o.a + c.a * (1 - o.a)` and weigh each
channel by the alphas that the two colors had (`Color.SourceOver`). Over the rational numbers what
the method makes can be said exactly: the alpha is the one above, but it is written before the
channels are computed, so in these the color below weighs with the alpha of the result, and so does
an overlay that is the same color (`Color.blend_overlay`).

Therefore the channels are those of the composition only in special cases: where nothing is covered,
where one of the two colors is opaque or the overlay transparent, and on black
(`Color.blend_sourceOver_iff`).
-/

namespace CellScript

namespace Color

/-- The overlay of a blending as it is read when the color below has come to `now`. An overlay that
is the color itself changes with it. -/
def overlay {α : Type} (shared : Bool) (top : Color α) : Color α → Color α :=
  fun now => if shared then now else top

/-- A color `c'` is what `o` over `c` makes: its alpha, and its channels weighed by the alphas. -/
structure SourceOver (c o c' : Color Rat) : Prop where
  alpha : c'.a = o.a + c.a * (1 - o.a)
  channels : c'.a ≠ 0 → ∀ k, k ≠ Channel.alpha →
    c'.get k * c'.a = o.get k * o.a + c.get k * c.a * (1 - o.a)

end Color

/-- A call of `Blend` blends the color with the color in its argument, which may be the same. -/
theorem Exec.runColorMethod_blend {r o : ColorRef} {c : Cell} {s t u : State}
    (hcell : Exec.argument "other" s = .ok c t) (hcolor : Exec.asColor c none t = .ok o u) :
    Exec.runColorMethod .blend r s =
      Exec.changeColor r (Color.blend (Color.overlay (o == r) (u.store.color o))) u := by
  change (Exec.argument "other" >>= fun c => Exec.asColor c none >>= _ : Exec (Option Cell)) s = _
  rw [Exec.bind_of_ok hcell, Exec.bind_of_ok hcolor]
  rfl

namespace Color

/-! ## The steps of a blending -/

theorem bind_step {α β : Type} {f : Color α → Except NumberFault (Color α)} {c d : Color α}
    (h : f c = .ok d) (rest : Change α β) :
    (step f >>= fun _ => rest) c = rest d := by
  have hstep : step f c = .ok () d := by rw [step, h]
  simp only [bind, EStateM.bind, hstep]

/-- A channel's step divides the two shares by the alpha of the result. -/
theorem blendChannel_eq (u : Rat) (k : Channel) (c top : Color Rat) (h : c.a ≠ 0) :
    blendChannel u k c top =
      .ok (c.set k ((top.get k * top.a + c.get k * c.a * u) / c.a)) := by
  change (Scalar.div (top.get k * top.a + c.get k * c.a * u) c.a >>=
    fun x => pure (c.set k x) : Except NumberFault (Color Rat)) = _
  change ((if c.a = 0 then .error .divisionByZero else .ok _ : Except NumberFault Rat) >>= _) = _
  rw [if_neg h]
  rfl

/-- The share that the overlay leaves is that of its first reading. -/
theorem blend_apply (top : Color Rat → Color Rat) (c : Color Rat) :
    blend top c =
      (do
        step fun now => blendAlpha (1 - (top c).a) now (top now)
        let covered ← MonadState.get
        if Scalar.isZero covered.a then modify clear
        else
          step fun now => blendChannel (1 - (top c).a) .red now (top now)
          step fun now => blendChannel (1 - (top c).a) .green now (top now)
          step fun now => blendChannel (1 - (top c).a) .blue now (top now) :
        Change Rat Unit) c :=
  rfl

/-- A channel of `o` over `c` if the color below weighs with the alpha `a` of the result, and the
overlay with `w`. -/
def composedChannel (c o : Color Rat) (a w : Rat) (k : Channel) : Rat :=
  (o.get k * w + c.get k * a * (1 - o.a)) / a

/-- The color made of these channels and the alpha `a`. It has none if nothing is covered. -/
def composed (c o : Color Rat) (a w : Rat) : Color Rat :=
  let channel := composedChannel c o a w
  if a = 0 then ⟨0, 0, 0, a⟩ else ⟨channel .red, channel .green, channel .blue, a⟩

section

variable {shared : Bool} {c o : Color Rat}

theorem overlay_self (same : shared = true → o = c) : overlay shared o c = o := by
  cases shared with
  | false => rfl
  | true => exact (same rfl).symm

/-- The step of a channel after the alpha has been written: an overlay that is the color itself
weighs with the alpha of the result, too. -/
theorem blendChannel_overlay (same : shared = true → o = c) {now : Color Rat} {a : Rat}
    (hnow : now.a = a) {k : Channel} (hk : now.get k = c.get k) (ha : a ≠ 0) :
    blendChannel (1 - o.a) k now (overlay shared o now) =
      .ok (now.set k (composedChannel c o a (if shared then a else o.a) k)) := by
  subst hnow
  rw [blendChannel_eq _ _ _ _ ha, composedChannel, hk]
  cases shared with
  | false => rfl
  | true =>
    obtain rfl := same rfl
    rw [← hk]
    rfl

/-- Blending always completes. The color below weighs with the alpha of the result, and so does an
overlay that is this color itself. -/
theorem blend_overlay (same : shared = true → o = c) :
    let a := o.a + c.a * (1 - o.a)
    blend (overlay shared o) c = .ok () (composed c o a (if shared then a else o.a)) := by
  intro a
  let covered : Color Rat := { c with a := a }
  have alpha : blendAlpha (1 - o.a) c (overlay shared o c) = .ok covered := by
    rw [overlay_self same]
    rfl
  rw [blend_apply, overlay_self same,
    bind_step (f := fun now => blendAlpha (1 - o.a) now (overlay shared o now)) alpha]
  unfold composed
  by_cases ha : a = 0
  · rw [if_pos ha]
    change (if (a == 0) = true then _ else _ : Change Rat Unit) _ = _
    rw [if_pos (beq_iff_eq.mpr ha)]
    rfl
  · rw [if_neg ha]
    change (if (a == 0) = true then _ else _ : Change Rat Unit) _ = _
    rw [if_neg fun h => ha (beq_iff_eq.mp h)]
    let channel := composedChannel c o a (if shared then a else o.a)
    let reddened := covered.set .red (channel .red)
    let greened := reddened.set .green (channel .green)
    have red : blendChannel (1 - o.a) .red covered (overlay shared o covered) = .ok reddened :=
      blendChannel_overlay same rfl rfl ha
    have green : blendChannel (1 - o.a) .green reddened (overlay shared o reddened) = .ok greened :=
      blendChannel_overlay same rfl rfl ha
    have blue : blendChannel (1 - o.a) .blue greened (overlay shared o greened) =
        .ok (greened.set .blue (channel .blue)) :=
      blendChannel_overlay same rfl rfl ha
    rw [bind_step (f := fun now => blendChannel (1 - o.a) .red now (overlay shared o now)) red,
      bind_step (f := fun now => blendChannel (1 - o.a) .green now (overlay shared o now)) green,
      step, blue]
    rfl

end

/-! ## Composition -/

@[simp] theorem composed_a (c o : Color Rat) (a w : Rat) : (composed c o a w).a = a := by
  unfold composed
  split <;> rfl

theorem composed_get (c o : Color Rat) {a : Rat} (w : Rat) (ha : a ≠ 0) {k : Channel}
    (hk : k ≠ .alpha) : (composed c o a w).get k = composedChannel c o a w k := by
  unfold composed
  rw [if_neg ha]
  cases k <;> first | rfl | exact absurd rfl hk

/-- What is made with a weight `w` of the overlay is the composition if the shares add up to the
same in every channel. -/
theorem sourceOver_composed_iff (c o : Color Rat) (w : Rat) {a : Rat}
    (halpha : a = o.a + c.a * (1 - o.a)) :
    SourceOver c o (composed c o a w) ↔
      a = 0 ∨ ∀ k, k ≠ Channel.alpha →
        o.get k * w + c.get k * a * (1 - o.a) = o.get k * o.a + c.get k * c.a * (1 - o.a) := by
  by_cases ha : a = 0
  · refine ⟨fun _ => .inl ha, fun _ => ⟨by simpa using halpha, fun h => absurd ?_ h⟩⟩
    simpa using ha
  · have channel : ∀ k, k ≠ Channel.alpha → (composed c o a w).get k * (composed c o a w).a =
        o.get k * w + c.get k * a * (1 - o.a) := by
      intro k hk
      rw [composed_get c o w ha hk, composed_a, composedChannel, div_mul_cancel₀ _ ha]
    constructor
    · intro h
      refine .inr fun k hk => ?_
      rw [← channel k hk]
      exact h.channels (by simpa using ha) k hk
    · rintro (h | h)
      · exact absurd h ha
      · refine ⟨by simpa using halpha, fun _ k hk => ?_⟩
        rw [channel k hk, h k hk]

/-- In a channel the shares add up to the same exactly if it is zero below, or one of the colors is
opaque, or the overlay covers nothing. -/
theorem shares_iff {shared : Bool} {c o : Color Rat} (same : shared = true → o = c) {a : Rat}
    (halpha : a = o.a + c.a * (1 - o.a)) (ha : a ≠ 0) (k : Channel) :
    o.get k * (if shared then a else o.a) + c.get k * a * (1 - o.a) =
        o.get k * o.a + c.get k * c.a * (1 - o.a) ↔
      c.get k = 0 ∨ c.a = 1 ∨ o.a = 0 ∨ o.a = 1 := by
  rw [← sub_eq_zero]
  cases shared with
  | false =>
    have hdiff : o.get k * o.a + c.get k * a * (1 - o.a) -
        (o.get k * o.a + c.get k * c.a * (1 - o.a)) =
          c.get k * ((1 - c.a) * (o.a * (1 - o.a))) := by
      rw [halpha]
      ring
    rw [if_neg Bool.false_ne_true, hdiff]
    simp only [mul_eq_zero, sub_eq_zero, eq_comm (a := (1 : Rat))]
  | true =>
    obtain rfl := same rfl
    have hdiff : o.get k * a + o.get k * a * (1 - o.a) -
        (o.get k * o.a + o.get k * o.a * (1 - o.a)) = o.get k * ((1 - o.a) * a) := by
      rw [halpha]
      ring
    have htransparent : o.a ≠ 0 := by
      intro h
      rw [h] at halpha
      exact ha (by rw [halpha]; ring)
    rw [if_pos rfl, hdiff]
    simp only [mul_eq_zero, sub_eq_zero, eq_comm (a := (1 : Rat)), ha, htransparent, or_false,
      false_or, or_self]

/-- Blending always completes and makes the alpha of the composition. The channels are those of the
composition exactly if nothing is covered, the color below is opaque or black, or the overlay is
opaque or covers nothing. -/
theorem blend_sourceOver_iff (shared : Bool) (c o : Color Rat) (same : shared = true → o = c) :
    ∃ c', blend (overlay shared o) c = .ok () c' ∧ c'.a = o.a + c.a * (1 - o.a) ∧
      (SourceOver c o c' ↔
        c'.a = 0 ∨ c.a = 1 ∨ o.a = 0 ∨ o.a = 1 ∨ ∀ k, k ≠ Channel.alpha → c.get k = 0) := by
  refine ⟨_, blend_overlay same, composed_a .., ?_⟩
  rw [sourceOver_composed_iff c o _ rfl, composed_a]
  by_cases ha : o.a + c.a * (1 - o.a) = 0
  · exact ⟨fun _ => .inl ha, fun _ => .inl ha⟩
  · refine or_congr_right ?_
    have hshares := fun k => shares_iff same rfl ha k
    constructor
    · intro h
      by_cases heither : c.a = 1 ∨ o.a = 0 ∨ o.a = 1
      · tauto
      · refine .inr (.inr (.inr fun k hk => ?_))
        exact ((hshares k).mp (h k hk)).resolve_right heither
    · intro h k hk
      refine (hshares k).mpr ?_
      rcases h with h | h | h | h
      · exact .inr (.inl h)
      · exact .inr (.inr (.inl h))
      · exact .inr (.inr (.inr h))
      · exact .inl (h k hk)

/-- A translucent blue over an opaque red. -/
theorem blend_sourceOver_iff_opaque :
    ∃ c', blend (overlay false ⟨0, 0, 1, 1 / 2⟩) ⟨1, 0, 0, 1⟩ = .ok () c' ∧
      SourceOver ⟨1, 0, 0, 1⟩ ⟨0, 0, 1, 1 / 2⟩ c' := by
  obtain ⟨c', hrun, -, hiff⟩ :=
    blend_sourceOver_iff false ⟨1, 0, 0, 1⟩ ⟨0, 0, 1, 1 / 2⟩ (fun h => nomatch h)
  exact ⟨c', hrun, hiff.mpr (.inr (.inl rfl))⟩

/-- Over a translucent color the channels come out too strong: the red of `3 / 4` at half alpha
becomes `3 / 8` under half a blue, where the composition has `1 / 4`. -/
theorem blend_misses_composition :
    ∃ c', blend (overlay false ⟨0, 0, 1, 1 / 2⟩) ⟨3 / 4, 0, 0, 1 / 2⟩ = .ok () c' ∧
      c'.r = 3 / 8 ∧ ¬ SourceOver ⟨3 / 4, 0, 0, 1 / 2⟩ ⟨0, 0, 1, 1 / 2⟩ c' := by
  let c : Color Rat := ⟨3 / 4, 0, 0, 1 / 2⟩
  let o : Color Rat := ⟨0, 0, 1, 1 / 2⟩
  have hmade : composed c o (3 / 4) (1 / 2) = ⟨3 / 8, 0, 2 / 3, 3 / 4⟩ := by decide +kernel
  have hrun : blend (overlay false o) c = .ok () (composed c o (3 / 4) (1 / 2)) := by
    have halpha : o.a + c.a * (1 - o.a) = 3 / 4 := by decide +kernel
    have same : false = true → o = c := fun h => absurd h Bool.false_ne_true
    rw [blend_overlay same, halpha]
    rfl
  rw [hmade] at hrun
  refine ⟨_, hrun, rfl, fun h => ?_⟩
  have hred := h.channels (by decide +kernel) .red nofun
  exact absurd hred (by decide +kernel)

end Color

end CellScript
