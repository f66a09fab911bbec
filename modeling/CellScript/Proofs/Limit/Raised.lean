import Mathlib
import CellScript.Proofs.Limit.Room
import CellScript.Proofs.Congruence.Interp
import CellScript.Proofs.Parse.Formed
import CellScript.Session

/-!
# Raising the limit on calls

A run that does not come up against the limit on calls does the same under a larger limit: it has
the same result or failure, prints and logs the same, and leaves the same storage and the same
names. The frames of the machine are reckoned from the limit, though, and counted in 32 bits. A
limit for which the machine refuses the frames lets no script run at all.

* `fits_tied`: the interpreter does the same with more room, whatever its fuel;
* `Exec.refusal?`: why the machine refuses the frames that a limit asks for, if it does;
* `raising_limit_iff`: a larger limit changes no run that fits in the smaller one, exactly if the
  machine gives the frames for both limits or refuses both in the same way.
-/

namespace CellScript

open Exec (Fits Leveled Blind)

/-! ## Interpreters -/

/-- Two interpreters do the same, the second one with more room. -/
structure Interp.Fits (p q : Interp) : Prop where
  on : fitting.AgreeOn .any p q
  text {n m : Nat} (c : Cell) (line : Option Nat) : n ≤ m →
    Exec.Fits (fun _ => True) (p.text n c line) (q.text m c line)

namespace Exec.Fits

/-- More frames are asked for where there are more. -/
theorem fullText {p q : Interp} {c : Cell} {line : Option Nat}
    (h : ∀ {n m : Nat}, n ≤ m → Fits (fun _ => True) (p.text n c line) (q.text m c line)) :
    Fits (fun _ => True) (fullText p c line) (fullText q c line) :=
  ⟨fun s => (h (Nat.le_refl s.frames)).level s,
    fun s limit frames hl hn => (h hn).same s limit frames hl hn⟩

/-- A text that nests too deeply runs out of room; else its parts have more room too. -/
theorem textWith {p q : Interp} (h : p.Fits q) (limit : Nat) {n m : Nat} (hnm : n ≤ m) (c : Cell)
    (line : Option Nat) :
    Fits (fun _ => True) (textWith limit p n c line) (textWith limit q m c line) := by
  refine (fittingSteps.value c).bind fun v _ => ?_
  split
  · by_cases hn : n < Store.listFrames
    · simp only [hn, if_true]
      exact overran (f := .exhausted) rfl _
    · have hm : ¬ m < Store.listFrames := by omega
      simp only [hn, hm, if_false]
      refine (fitting.elementTexts trivial (fun e => ?_) _ limit 0 []).bind fun _ => pure trivial
      exact h.text e line (by omega)
  · refine (fitting.method? c _).bind fun method => ?_
    split
    · by_cases hn : n < Store.askFrames
      · simp only [hn, if_true]
        exact overran (f := .script .callDepthExceeded line) rfl _
      · have hm : ¬ m < Store.askFrames := by omega
        simp only [hn, hm, if_false]
        exact (h.on.callCell _ _ _).bind fun _ => h.text _ line (by omega)
    · exact fittingSteps.storage.bind fun _ _ => fittingSteps.ofNumber _
  · exact fittingSteps.storage.bind fun _ _ => fittingSteps.ofNumber _

end Exec.Fits

/-- With more room the interpreter does the same, as long as the functions of the host do. -/
theorem Interp.fits_tied {host : Host}
    (hh : ∀ name, Exec.Fits (fun _ => True) (host name) (host name)) (n : Nat) :
    (Interp.tied Exec.runAll host n).Fits (Interp.tied Exec.runAll host n) := by
  have full := Fragment.making_full fun _ => True
  induction n with
  | zero =>
    have out {n m : Nat} (c : Cell) (line : Option Nat) (_ : n ≤ m) :
        Exec.Fits (fun _ => True) ((Interp.tied Exec.runAll host 0).text n c line)
          ((Interp.tied Exec.runAll host 0).text m c line) := .throw .outOfFuel
    exact {
      on := {
        evaluate := fun _ => .throw .outOfFuel
        execute := fun _ => .throw .outOfFuel
        run := fun _ => .runAll (fun _ => .throw .outOfFuel) _
        invoke := fun _ _ _ _ => .throw .outOfFuel
        fullText := fun c line _ => .fullText (out c line) }
      text := out }
  | succ n ih =>
    have execute (st : Stmt) := ih.on.executeWith n (full.stmtParts false st)
    have text {k m : Nat} (c : Cell) (line : Option Nat) (hkm : k ≤ m) :=
      Exec.Fits.textWith ih n hkm c line
    exact {
      on := {
        evaluate := fun _ => ih.on.evaluateWith (full.exprParts fun _ _ _ => trivial)
        execute := fun _ => execute _
        run := fun _ => .runAll execute _
        invoke := fun {f} owner args line _ => fittingSteps.inCall _ owner args line
          fun scope members _ _ => .activate scope members line (ih.on.runCallable line trivial
            (fun name _ _ => hh name) fun _ body _ _ => ⟨full.declaresAll body, fun _ _ => trivial⟩)
        fullText := fun c line _ => .fullText (text c line) }
      text := text }

/-! ## Scripts -/

/-- The same state with another limit on calls. -/
def State.limited (s : State) (limit : Int) : State := { s with maxCallDepth := limit }

namespace Exec

variable {α β : Type}

/-- The same outcome with another limit on calls. -/
def limited (limit : Int) : EStateM.Result Failure State α → EStateM.Result Failure State α
  | .ok a t => .ok a (t.limited limit)
  | .error f t => .error f (t.limited limit)

/-- Why the machine refuses the frames that a limit on calls asks for beside those that there are,
if it does. -/
def refusal? (previous : Nat) (limit : Int) : Option Failure :=
  let frames := previous + framesPerCall * limit
  if frames < minInt || maxInt < frames then some (.number .overflow)
  else if frames < 1 then some .noFrames
  else none

namespace Blind

theorem limited {x : Exec α} (h : Blind Overlay.OfLimit x) (s : State) (limit : Int) :
    x (s.limited limit) = limited limit (x s) := by
  have same := h ⟨id, fun _ => limit, id⟩ ⟨rfl, rfl⟩ s
  change x (s.limited limit) = _ at same
  rw [same]
  cases x s <;> rfl

theorem maxCallDepth {x : Exec α} (h : Blind Overlay.OfLimit x) {s t : State} {a : α}
    (hx : x s = .ok a t) : t.maxCallDepth = s.maxCallDepth := by
  have same := h.limited s s.maxCallDepth
  change x s = _ at same
  rw [hx] at same
  simp only [Exec.limited, EStateM.Result.ok.injEq, true_and] at same
  rw [same]
  rfl

theorem frames_ok {x : Exec α} (h : Blind Overlay.OfRoom x) {s t : State} {a : α}
    (hx : x s = .ok a t) : t.frames = s.frames := by
  have same := h ⟨id, id, fun _ => s.frames⟩ rfl s
  change x s = _ at same
  rw [hx] at same
  simp only [overlaid, EStateM.Result.ok.injEq, true_and] at same
  rw [same]
  rfl

theorem of_room {x : Exec α} (h : Blind Overlay.OfRoom x) : Blind Overlay.OfLimit x :=
  fun o ho => h o ho.1

theorem trace {O : Overlay → Prop} (logger message : String) : Blind O (trace logger message) := by
  refine get_bind (fun _ _ => rfl) fun s => ?_
  split
  · exact update fun _ _ => rfl
  · exact pure _

theorem beginScript : Blind Overlay.OfRoom beginScript := by
  have reset : Blind Overlay.OfRoom (modify State.reset) := by
    rintro ⟨_, _, _⟩ rfl s
    rfl
  exact reset.bind fun _ => (newCell _).bind fun c => (pushReturn c).bind fun _ =>
    get_bind (fun _ _ => rfl) fun s => trace _ _

/-- What is logged of a result depends on the frames, but not on the limit. -/
theorem endScript : Blind Overlay.OfLimit endScript := by
  have lowered : Blind Overlay.OfLimit (modify fun s => { s with flags := .none }) := by
    rintro ⟨_, _, _⟩ ⟨rfl, rfl⟩ s
    rfl
  have report (c : Cell) : Blind Overlay.OfLimit (report c) := by
    refine get_bind (fun _ _ => rfl) fun s => ?_
    split
    · intro o ho s
      have same : (s.overlay o).store.describeIn (s.overlay o).frames c =
          s.store.describeIn s.frames c := by
        rw [State.overlay, ho.2]
        rfl
      rw [get_bind_apply, get_bind_apply, same]
      cases s.store.describeIn s.frames c with
      | ok t => exact trace _ _ o ho s
      | error f => rfl
    · exact pure _
  exact popReturn.bind fun c => lowered.bind fun _ => (report c).bind fun _ => pure _

end Blind

/-! ### Frames -/

/-- The frames that there are for a limit beside those that there have been. -/
def framesFor (previous : Nat) (limit : Int) : Nat := (previous + framesPerCall * limit).toNat

theorem withFrames_apply (x : Exec α) (s : State) :
    withFrames x s = match refusal? s.frames s.maxCallDepth with
      | some f => .error f s
      | none => ensuring x (modify fun t => { t with frames := s.frames })
          { s with frames := framesFor s.frames s.maxCallDepth } := by
  unfold withFrames
  simp only [get_bind_apply, refusal?]
  split
  · rfl
  · split
    · rfl
    · rfl

theorem framesFor_mono {previous : Nat} {m m' : Int} (h : m ≤ m') :
    framesFor previous m ≤ framesFor previous m' := by
  unfold framesFor framesPerCall
  omega

/-- A larger limit changes nothing that fits in the frames of the smaller one. -/
theorem withFrames_limited {Q : α → Prop} {x : Exec α} (hx : Fits Q x x) {s : State} {m : Int}
    (hm : s.maxCallDepth ≤ m) (hr : refusal? s.frames m = refusal? s.frames s.maxCallDepth) :
    Overran (withFrames x s) ∨ withFrames x (s.limited m) = limited m (withFrames x s) := by
  have other : refusal? (s.limited m).frames (s.limited m).maxCallDepth =
      refusal? s.frames s.maxCallDepth := hr
  rw [withFrames_apply, withFrames_apply, other]
  cases refusal? s.frames s.maxCallDepth with
  | some f => exact .inr rfl
  | none =>
    dsimp only
    let raised : State := { s with frames := framesFor s.frames s.maxCallDepth }
    have more : { s.limited m with
        frames := framesFor (s.limited m).frames (s.limited m).maxCallDepth } =
        raised.overlay (.room m (framesFor s.frames m)) := rfl
    rw [more]
    unfold ensuring
    rcases hx.same raised m (framesFor s.frames m) hm (framesFor_mono hm) with
      ⟨e, he, hover⟩ | same
    · refine .inl ⟨e, ?_, hover⟩
      cases hr : x raised with
      | ok a t => simp [hr, failure?] at he
      | error e' t =>
        rw [hr] at he
        exact he
    · rw [same]
      cases x raised with
      | ok a t => exact .inr rfl
      | error e t => exact .inr rfl

theorem overrun_of_isOverrun {f : Failure} (h : f.isOverrun = true) :
    ∃ line, overrun none f = .script .callDepthExceeded line := by
  cases f with
  | exhausted => exact ⟨none, rfl⟩
  | script cause line =>
    cases cause with
    | callDepthExceeded => exact ⟨line, rfl⟩
    | _ => cases h
  | _ => cases h

/-- A larger limit changes no run of a script that fits in the smaller one. -/
theorem runScript_limited {host : Host} (hh : ∀ name, Fits (fun _ => True) (host name) (host name))
    (fuel : Nat) (script : Script) (s : State) {m : Int} (hm : s.maxCallDepth ≤ m)
    (hr : refusal? s.frames m = refusal? s.frames s.maxCallDepth)
    (hf : ∀ line, failure? (runScript (Interp.withFuel host fuel) script s) ≠
      some (.script .callDepthExceeded line)) :
    runScript (Interp.withFuel host fuel) script (s.limited m) =
      limited m (runScript (Interp.withFuel host fuel) script s) := by
  rw [Interp.withFuel_eq_tied] at hf ⊢
  have full := Fragment.making_full fun _ => True
  have any : Nodes.any.all false script.statements := fun _ _ => trivial
  have body := (Interp.fits_tied hh fuel).on.prepareAndRun (full.declaresAll _) any
  revert hf
  unfold runScript
  change (∀ line, failure? (EStateM.bind _ _ s) ≠ _) → EStateM.bind _ _ _ =
    limited m (EStateM.bind _ _ s)
  unfold EStateM.bind
  rw [Blind.beginScript.of_room.limited]
  cases hb : beginScript s with
  | error e t => exact fun _ => rfl
  | ok a t =>
    have ht := Blind.beginScript.of_room.maxCallDepth hb
    have hframes := Blind.beginScript.frames_ok hb
    dsimp only [limited]
    change (∀ line, failure? (EStateM.bind _ _ t) ≠ _) → EStateM.bind _ _ _ =
      limited m (EStateM.bind _ _ t)
    unfold EStateM.bind mapFailure
    intro hf
    rcases withFrames_limited body (ht ▸ hm) (hframes ▸ ht ▸ hr) with ⟨e, he, hover⟩ | same
    · cases hx : withFrames _ t with
      | ok a u => simp [hx, failure?] at he
      | error e' u =>
        rw [hx] at he
        cases he
        obtain ⟨line, hline⟩ := overrun_of_isOverrun hover
        refine absurd ?_ (hf line)
        simp only [hx, hline, failure?]
    · rw [same]
      cases withFrames _ t with
      | ok a u => exact Blind.endScript.limited u m
      | error e u => rfl

theorem refusal?_cases (previous : Nat) (limit : Int) :
    refusal? previous limit = some (.number .overflow) ∨
      refusal? previous limit = some .noFrames ∨ refusal? previous limit = none := by
  simp only [refusal?]
  split
  · exact .inl rfl
  · split
    · exact .inr (.inl rfl)
    · exact .inr (.inr rfl)

/-- A state without any scope on a machine with the given frames. -/
def bareState (frames : Nat) : State := { State.initial 0 with frames }

/-- The empty script fails only where the frames are refused. -/
theorem failure?_runScript_nil (host : Host) (frames : Nat) (limit : Int) :
    failure? (runScript (Interp.withFuel host 0) ⟨[]⟩ ((bareState frames).limited limit)) =
      refusal? frames limit := by
  have framed (t : State) : mapFailure (overrun none) (withFrames (pure ())) t =
      match refusal? t.frames t.maxCallDepth with
      | some f => .error f t
      | none => .ok () t := by
    rw [mapFailure, withFrames_apply]
    rcases refusal?_cases t.frames t.maxCallDepth with h | h | h <;> rw [h] <;> rfl
  let t : State := { (bareState frames).limited limit with
    store := (Store.empty.alloc .undefined).2, returns := [(Store.empty.alloc .undefined).1] }
  have begun : beginScript ((bareState frames).limited limit) = .ok () t := rfl
  have under : refusal? t.frames t.maxCallDepth = refusal? frames limit := rfl
  have nothing : (prepareAll [] >>= fun _ => (Interp.withFuel host 0).run []) = pure () := rfl
  unfold runScript
  rw [nothing]
  change failure? (EStateM.bind _ _ _) = _
  rw [EStateM.bind, begun]
  change failure? (EStateM.bind _ _ t) = _
  rw [EStateM.bind, framed, under]
  cases refusal? frames limit with
  | some f => rfl
  | none => rfl

end Exec

/-- If a run under a limit on calls does not fail for too many calls, then the run under a larger
limit has the same result or failure and ends in the same state but for the limit: for all scripts
and all states of a machine with so many frames, exactly if it gives the frames for both limits, or
refuses them for the same reason. -/
theorem raising_limit_iff {host : Host}
    (hh : ∀ name, Exec.Fits (fun _ => True) (host name) (host name)) (frames : Nat) {m m' : Int}
    (hm : m ≤ m') :
    (∀ (fuel : Nat) (script : Script) (s : State), s.frames = frames →
      (∀ line, Exec.failure? (Exec.runScript (Interp.withFuel host fuel) script (s.limited m)) ≠
        some (.script .callDepthExceeded line)) →
      Exec.runScript (Interp.withFuel host fuel) script (s.limited m') =
        Exec.limited m' (Exec.runScript (Interp.withFuel host fuel) script (s.limited m))) ↔
      Exec.refusal? frames m' = Exec.refusal? frames m := by
  refine ⟨fun h => ?_, fun hr fuel script s hs hf => ?_⟩
  · have small := Exec.failure?_runScript_nil host frames m
    have large := Exec.failure?_runScript_nil host frames m'
    have fits (line : Option Nat) : Exec.failure? (Exec.runScript (Interp.withFuel host 0) ⟨[]⟩
        ((Exec.bareState frames).limited m)) ≠ some (.script .callDepthExceeded line) := by
      rw [small]
      rcases Exec.refusal?_cases frames m with h | h | h <;> rw [h] <;> simp
    rw [h 0 ⟨[]⟩ (Exec.bareState frames) rfl fits] at large
    rw [← large, ← small]
    cases Exec.runScript (Interp.withFuel host 0) ⟨[]⟩ ((Exec.bareState frames).limited m) <;> rfl
  · exact Exec.runScript_limited hh fuel script (s.limited m) hm (hs ▸ hr) hf

/-- A function of the host that prints its name does not look at the limit, and a machine with a
thousand frames gives those for one call and for two. -/
theorem raising_limit_iff_talking :
    let host : Host := fun name => do Exec.print name; return none
    (∀ name, Exec.Fits (fun _ => True) (host name) (host name)) ∧ (1 : Int) ≤ 2 ∧
      ∀ (fuel : Nat) (script : Script) (s : State), s.frames = 1000 →
        (∀ line, Exec.failure? (Exec.runScript (Interp.withFuel host fuel) script (s.limited 1)) ≠
          some (.script .callDepthExceeded line)) →
        Exec.runScript (Interp.withFuel host fuel) script (s.limited 2) =
          Exec.limited 2 (Exec.runScript (Interp.withFuel host fuel) script (s.limited 1)) := by
  intro host
  have fits (name : String) : Exec.Fits (fun _ => True) (host name) (host name) :=
    (fittingSteps.print name).bind fun _ _ => .pure trivial
  exact ⟨fits, by decide, (raising_limit_iff fits 1000 (by decide)).2 (by decide)⟩

/-- Under a limit of forty million calls, which the machine refuses, a script without any call fails
that returns one under a limit of two hundred. -/
theorem raised_limit_refused :
    let interp := Interp.withFuel (fun _ => pure none) 20
    let script : Script := ⟨[.assign (.name "x" .location 1) (.integer 1 1) 1,
      .return (some (.name "x" .operand 1)) 1]⟩
    let s := (State.initial 200).restart
    script.Parsed ∧
      Exec.result? ((do Exec.value (← Exec.runScript interp script)) (s.limited 200)) =
        some (.integer 1) ∧
      Exec.failure? (Exec.runScript interp script (s.limited 40000000)) =
        some (.number .overflow) := by
  intro interp script s
  refine ⟨.inl ⟨⟨⟨[], "/"⟩, [], []⟩, 0, none, "x = 1; return x;", by cbv⟩, ?_, ?_⟩
  · cbv
  · cbv

end CellScript
