import CellScript.Proofs.Congruence.Fuel
import CellScript.Proofs.Outcome

/-!
# Runs that complete

Nothing in a run catches a failure. So a step whose parts do what the parts of another one do
whenever they complete does what the other one does whenever it completes itself. This is a logic of
the whole language, and it asks nothing of the states or of the host: with more fuel, whatever
completes completes in the same way.

* `Exec.Completes`: where the first step completes, the second one does the same;
* `completing`: this is a logic of all programs;
* `Interp.completes`: the interpreter with less fuel is related to the one with more.
-/

namespace CellScript

namespace Exec

variable {α β : Type}

/-- Where the first step completes, it gives what `Q` says, and the second one does the same. -/
def Completes (Q : α → Prop) (x y : Exec α) : Prop :=
  ∀ s a t, x s = .ok a t → Q a ∧ y s = .ok a t

namespace Completes

variable {P Q : α → Prop} {x y : Exec α}

theorem refl (h : ∀ s a t, x s = .ok a t → Q a) : Completes Q x x :=
  fun s a t hx => ⟨h s a t hx, hx⟩

/-- A step completes as it does. -/
theorem self (x : Exec α) : Completes (fun _ => True) x x := refl fun _ _ _ _ => trivial

theorem throw (f : Failure) (y : Exec α) : Completes Q (throw f) y := fun _ _ _ h => nomatch h

theorem mono (hPQ : ∀ a, P a → Q a) (h : Completes P x y) : Completes Q x y :=
  fun s a t hx => (h s a t hx).imp_left (hPQ a)

theorem bind {R : β → Prop} {f g : α → Exec β} (h : Completes P x y)
    (hf : ∀ a, P a → Completes R (f a) (g a)) : Completes R (x >>= f) (y >>= g) := by
  intro s b u completed
  cases hx : x s with
  | ok a t =>
    obtain ⟨known, hy⟩ := h s a t hx
    rw [bind_of_ok hx] at completed
    rw [bind_of_ok hy]
    exact hf a known t b u completed
  | error f t =>
    rw [bind_of_error hx] at completed
    cases completed

theorem mapFailure (h : Completes Q x y) (g : Failure → Failure) :
    Completes Q (mapFailure g x) (mapFailure g y) := by
  intro s a t completed
  unfold Exec.mapFailure at completed ⊢
  cases hx : x s with
  | ok b u =>
    obtain ⟨known, hy⟩ := h s b u hx
    rw [hx] at completed
    cases completed
    exact ⟨known, by rw [hy]⟩
  | error f u =>
    rw [hx] at completed
    cases completed

/-- What finishes a step that completes begins in the same state. -/
theorem ensuring (h : Completes Q x y) (finish : Exec Unit) :
    Completes Q (ensuring x finish) (ensuring y finish) := by
  intro s a t completed
  unfold Exec.ensuring at completed ⊢
  cases hx : x s with
  | ok b u =>
    obtain ⟨known, hy⟩ := h s b u hx
    simp only [hx, hy] at completed ⊢
    cases finished : finish u with
    | ok _ v =>
      rw [finished] at completed
      cases completed
      exact ⟨known, rfl⟩
    | error f v =>
      rw [finished] at completed
      cases completed
  | error f u =>
    simp only [hx] at completed
    cases finished : finish u <;> simp [finished] at completed

/-- Steps that depend on the state. -/
theorem choose {f g : State → Exec α} (h : ∀ s, Completes Q (f s) (g s)) :
    Completes Q (get >>= f) (get >>= g) := fun s => h s s

theorem inBlock {x y : Exec Unit} (h : Completes (fun _ => True) x y) :
    Completes (fun _ => True) (inBlock x) (inBlock y) :=
  (self _).bind fun _ _ => h.ensuring _

theorem inRealization {x y : Exec Unit} (h : Completes (fun _ => True) x y) (obj : Cell)
    (members : Scope) : Completes (fun _ => True) (inRealization obj members x)
      (inRealization obj members y) :=
  (self _).bind fun _ _ => (self _).bind fun _ _ => (h.bind fun _ _ => self _).ensuring _

theorem activate {x y : Exec Cell} (h : Completes (fun _ => True) x y) (scope : Scope)
    (members : Option Scope) (line : Option Nat) : Completes (fun _ => True)
      (activate scope members line x) (activate scope members line y) :=
  (self _).bind fun _ _ => (self _).bind fun _ _ => (self _).bind fun _ _ =>
    (h.mapFailure _).ensuring _

theorem takeResult {x y : Exec Unit} (h : Completes (fun _ => True) x y) :
    Completes (fun _ => True) (takeResult x) (takeResult y) :=
  (self _).bind fun _ _ => (self _).bind fun _ _ => h.bind fun _ _ => self _

theorem loopParts : LoopParts (fun x y => Completes (fun _ => True) x y)
    fun x y => Completes (fun _ => True) x y where
  pure _ := self _
  bind h hf := h.bind fun a _ => hf a
  outOfFuel := throw _ _
  clear _ := self _
  loopExit := self _
  whole h := (self _).bind fun _ _ => h.bind fun _ _ => self _

end Completes

end Exec

/-! ## The logic -/

open Exec (Completes)

/-- Completing in the same way, whatever the storage holds. -/
def completingSteps : StoreLogic (.making fun _ => True) where
  Rel _ _ Q x y := Completes Q x y
  pure h := .refl fun _ _ _ same => by cases same; exact h
  bind := Completes.bind
  mono _ := Completes.mono
  throw f _ := .throw f _
  located line h := h.mapFailure _
  storage := .self _
  value _ := .refl fun _ _ _ _ => trivial
  allocate _ h := .refl fun s _ _ same => by cases same; exact (h s.store fun _ _ => trivial).1
  find? _ := .self _
  findType? _ := .refl fun _ _ _ _ _ _ => trivial
  instant? := .self _
  addAnonymous _ := .self _
  print _ := .self _
  log _ _ _ := .self _
  randomBetween _ _ := .self _
  raise _ := .self _
  setReturn _ _ := .self _

/-- Completing in the same way is a logic of all programs. -/
def completing : ProgramLogic (.making fun _ => True) where
  toStepLogic := completingSteps.steps fun _ => Completes.self _
  Fresh _ _ x y := Completes (fun _ => True) x y
  jumps _ h := h
  evaluateName _ _ _ _ := Completes.self _
  fresh h := h
  prepared _ h := Completes.bind (Completes.self _) fun _ _ => h
  takeResult := Completes.takeResult
  inBlock := Completes.inBlock
  fillObject obj r h :=
    completingSteps.fillObject (l := .ofReturn) obj r fun members _ => h.inRealization obj members
  loopBefore limit _ := Completes.loopParts.loopBefore limit
  loopAfter limit _ := Completes.loopParts.loopAfter limit

theorem completing_starves : completing.Starves where
  full := Fragment.making_full _
  creates _ := trivial
  exhausted := trivial
  starved _ := Completes.throw _ _
  frames := Completes.self _
  readFlags _ := Completes.self _
  clear _ := Completes.self _

theorem completes_invokeWith {host : Host} {p q : Interp} (h : completing.AgreeOn .any p q)
    (f : Callable) (owner : Option ObjectRef) (args : List Cell) (line : Option Nat) :
    Completes (fun _ => True) (Exec.invokeWith host p f owner args line)
      (Exec.invokeWith host q f owner args line) := by
  refine completingSteps.inCall _ owner args line fun scope members _ _ => ?_
  refine Completes.activate ?_ scope members line
  exact h.runCallable line trivial (fun _ _ _ => Completes.self _) fun _ body _ _ =>
    ⟨(Fragment.making_full _).declaresAll body, fun _ _ => trivial⟩

/-- With more fuel, whatever completes completes in the same way. -/
theorem Interp.completes (host : Host) {m n : Nat} (hmn : m ≤ n) :
    completing.AgreeOn .any (Interp.withFuel host m) (Interp.withFuel host n) :=
  (completing_starves.agreeOn_of_le completes_invokeWith hmn).1

end CellScript
