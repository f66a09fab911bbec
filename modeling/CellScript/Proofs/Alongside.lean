import CellScript.Proofs.Along
import CellScript.Proofs.Detached.Guarded

/-!
# Steps that do the same where a property holds

To say that a property holds at every moment of a run, the run is compared with one that watches the
property and gives up, or does something else, where it fails. Begun where the property holds, both
do the same, if each step leads along an order of states that keeps the property.

* `PropertyOrder`: an order of states and a property that is kept along it;
* `Exec.Alongside`: a step follows the order, and another one does the same where the property
  holds;
* `PropertyOrder.cells`: this is a logic of all steps that run no program and change no object.
-/

namespace CellScript

open Exec (Along)

/-- An order of states, and a property of states that is kept along it. -/
structure PropertyOrder extends QuietOrder where
  Holds : State → Prop
  follows {s : State} : Holds s → From s
  kept {s t : State} : Holds s → Le s t → Holds t

instance : Coe PropertyOrder StateOrder := ⟨fun G => G.toStateOrder⟩

namespace Exec

variable {α β : Type}

/-- The second step follows the order, and the first one does the same, begun where the property
holds. -/
structure Alongside (G : PropertyOrder) (Q : α → Prop) (x y : Exec α) : Prop where
  along : Along G Q y
  same {s : State} : G.Holds s → x s = y s

namespace Alongside

variable {G : PropertyOrder} {P Q : α → Prop} {x y : Exec α}

theorem self (h : Along G Q x) : Alongside G Q x x := ⟨h, fun _ => rfl⟩

theorem mono {R : α → Prop} (hQ : ∀ a, Q a → R a) (h : Alongside G Q x y) : Alongside G R x y :=
  ⟨h.along.mono hQ, h.same⟩

theorem bind {R : β → Prop} {f g : α → Exec β} (h : Alongside G P x y)
    (hf : ∀ a, P a → Alongside G R (f a) (g a)) : Alongside G R (x >>= f) (y >>= g) where
  along := h.along.bind fun a ha => (hf a ha).along
  same {s} hs := (bind_congr_left (h.same hs) f).trans
    (Ends.bind_congr ((h.along s (G.follows hs)).mono
      (fun a _ ht => (hf a ht.1).same (G.kept hs ht.2)) fun _ _ h => h))

theorem mapFailure (g : Failure → Failure) (h : Alongside G Q x y) :
    Alongside G Q (mapFailure g x) (mapFailure g y) :=
  ⟨h.along.mapFailure g, fun hs => mapFailure_congr (h.same hs) g⟩

/-- Watching a step does not change it. -/
theorem guarded {I : State → Prop} (hI : ∀ s, G.Holds s → I s) (h : Alongside G Q x y) :
    Alongside G Q (guarded I x) y := by
  refine ⟨h.along, fun {s} hs => ?_⟩
  have same : x s = y s := h.same hs
  rw [guarded_eq (hI s hs), same]
  unfold Ends
  rw [same]
  exact (h.along s (G.follows hs)).mono (fun _ t ht => hI t (G.kept hs ht.2))
    fun _ t ht => hI t (G.kept hs ht)

theorem evaluateList {f g : Expr → Exec Cell} (es : List Expr)
    (h : ∀ e, Alongside G (fun _ => True) (f e) (g e)) :
    Alongside G (fun _ => True) (evaluateList f es) (evaluateList g es) := by
  have elements : Alongside G (fun _ => True) (evaluateElements f es) (evaluateElements g es) := by
    induction es with
    | nil => exact self (.pure trivial)
    | cons e es ih =>
      exact (h e).bind fun c _ => (self (Along.copyCell c)).bind fun _ _ =>
        ih.bind fun _ _ => self (.pure trivial)
  exact elements.bind fun cs _ => (self (Along.allocate (fun _ => rfl) fun _ => Nat.le_refl _)).bind
    fun r _ => self (Along.newCell _)

theorem loopParts : LoopParts (Alongside G fun _ => True) (Alongside G fun _ => True) where
  pure _ := self (.pure trivial)
  bind hx hf := hx.bind fun a _ => hf a
  outOfFuel := self (.throw _)
  clear f := self (Along.loopParts.clear f)
  loopExit := self (.read fun _ => trivial)
  whole h := bind (P := fun _ => True) (self (Along.loopParts.clear .ofBreak)) fun _ _ =>
    h.bind fun _ _ => self (Along.loopParts.clear .loopOwned)

theorem runAll {f g : Stmt → Exec Unit} (h : ∀ st, Alongside G (fun _ => True) (f st) (g st))
    (ss : List Stmt) : Alongside G (fun _ => True) (runAll f ss) (runAll g ss) := by
  induction ss with
  | nil => exact self (.pure trivial)
  | cons st ss ih =>
    refine (h st).bind fun _ _ => bind (P := fun _ => True) (self (.read fun _ => trivial))
      fun s _ => ?_
    split
    · exact self (.pure trivial)
    · exact ih

end Alongside

end Exec

open Exec (Alongside)

/-- Going alongside is a logic of all steps that run no program and change no object, if cells
without a name may be kept. -/
def PropertyOrder.cells (G : PropertyOrder) {d : Prop}
    (addAnonymous : ∀ c, Along G (fun _ => True) (Exec.addAnonymous c)) :
    CellLogic (.declaring d) :=
  let along : CellLogic (.declaring d) := G.toQuietOrder.cells addAnonymous
  { Rel := fun _ _ Q x y => Alongside G Q x y
    pure := fun h => .self (.pure h)
    bind := .bind
    mono := fun _ => .mono
    throw := fun f _ => .self (.throw f)
    located := fun _ => .mapFailure _
    storage := .self along.storage
    value := fun c => .self (along.value c)
    find? := fun name => .self (along.find? name)
    findType? := fun name => .self (along.findType? name)
    newCell := fun v hv => .self (along.newCell v hv)
    allocate := fun f hf => .self (along.allocate f hf)
    store := fun c v line hv => .self (along.store c v line hv)
    copyCell := fun c => .self (along.copyCell c)
    append := fun r c => .self (along.append r c)
    evaluateList := .evaluateList
    addAnonymous := fun c => .self (along.addAnonymous c)
    print := fun t => .self (along.print t)
    log := fun level logger t => .self (along.log level logger t)
    randomBetween := fun a b => .self (along.randomBetween a b)
    raise := fun f => .self (along.raise f)
    setReturn := fun c line => .self (along.setReturn c line) }

end CellScript
