import CellScript.Proofs.Realization.Stored
import CellScript.Proofs.Session.Stacks

/-!
# Orders that sessions follow

What a host adds to a session follows every order that allows the changes which programs make to the
global scopes. So where such an order is followed by all that is run, and where it is followed can
be told from the storage, it is followed between all requests.

* `Exec.Along.installLibrary`, `HostItem.along_make`: what hosts add follows the order, and what
  they make follows every order of objects;
* `Session.Invariant.of_order`: sessions follow the order;
* `Session.membersStored_of_reachable`: members are cells of the storage in all reachable sessions.
-/

namespace CellScript

namespace Exec.Along

section

variable {R : QuietOrder}

theorem trace (logger message : String) : Along R (fun _ => True) (trace logger message) := by
  refine after (x := get) (read fun _ => trivial) fun s => ?_
  split
  · exact update fun _ => R.quiet (.of_eq rfl rfl rfl rfl)
  · exact pure trivial

theorem keep (x : Number) : Along R (fun _ => True) (keep x) := by
  unfold Exec.keep
  split
  · split
    · exact allocate (fun _ => rfl) fun _ => Nat.le_refl _
    · exact pure trivial
  · exact pure trivial

theorem newReal (x : Number) : Along R (fun _ => True) (newReal x) :=
  (keep x).after fun _ => newCell _

theorem newColor (c : Color Number) : Along R (fun _ => True) (newColor c) := by
  have kept : Along R (fun _ => True) (keepColor c) :=
    (keep _).after fun _ => (keep _).after fun _ => (keep _).after fun _ => (keep _).after fun _ =>
      pure trivial
  exact kept.after fun _ =>
    (allocate (fun _ => rfl) fun _ => Nat.le_refl _).after fun _ => newCell _

theorem newVector (v : Vector2 Number) : Along R (fun _ => True) (newVector v) := by
  have kept : Along R (fun _ => True) (keepVector v) :=
    (keep _).after fun _ => (keep _).after fun _ => pure trivial
  exact kept.after fun _ =>
    (allocate (fun _ => rfl) fun _ => Nat.le_refl _).after fun _ => newCell _

end

variable {R : HeapOrder} {α : Type} {Q : α → Prop} {x : Exec α}

/-- Where the order is followed, it is followed afterwards. -/
theorem keeps (h : Along R Q x) : Keeps R.From x := fun s hs =>
  (h s hs).mono (fun _ _ ht => R.keeps hs ht.2) fun _ _ ht => R.keeps hs ht

theorem defineGlobal (name : String) (v : Value) :
    Along R (fun _ => True) (defineGlobal name v) :=
  (newCell v).after fun c => addGlobal name c none

theorem defineFunction (name : String) (f : Callable) :
    Along R (fun _ => True) (defineFunction name f) :=
  (trace _ _).after fun _ => defineGlobal name _

theorem defineType (t : ObjectType) : Along R (fun _ => True) (defineType t) :=
  (trace _ _).after fun _ => addType t.name t none

theorem installLibrary : Along R (fun _ => True) installLibrary := by
  have constants := R.cells.forIn standardConstants (f := fun x => Exec.defineGlobal x.1 x.2)
    (g := fun x => Exec.defineGlobal x.1 x.2) fun x _ => defineGlobal x.1 x.2
  have functions := R.cells.forIn Builtin.all
    (f := fun f => Exec.defineFunction f.name (.builtin f))
    (g := fun f => Exec.defineFunction f.name (.builtin f)) fun f _ => defineFunction f.name _
  unfold Exec.installLibrary
  exact constants.bind fun _ => functions.bind fun _ => R.cells.holds_pure _

end Exec.Along

open Exec (Along)

namespace HostItem

variable {R : ObjectOrder}

mutual

theorem along_make : ∀ item : HostItem, Along R (fun _ => True) item.make
  | .undefined | .boolean _ | .integer _ | .string _ | .function _ | .objectType _ => by
    unfold make
    exact .newCell _
  | .real x => by
    unfold make
    exact .newReal x
  | .color c => by
    unfold make
    exact .newColor c
  | .vector v => by
    unfold make
    exact .newVector v
  | .list items => by
    unfold make
    exact (along_makeAll items).after fun _ =>
      (Along.allocate (fun _ => rfl) fun _ => Nat.le_refl _).after fun _ => .newCell _
  | .object t => by
    unfold make
    exact ((Along.makeObject t).mono fun _ _ => trivial).after fun _ => .newCell _

theorem along_makeAll : ∀ items : List HostItem, Along R (fun _ => True) (makeAll items)
  | [] => by
    unfold makeAll
    exact .pure trivial
  | item :: items => by
    unfold makeAll
    exact (along_make item).after fun _ => (along_makeAll items).after fun _ => .pure trivial

end

end HostItem

namespace Session

/-- Where an order is followed depends on the storage only, and it is followed in the beginning.
Then every request leads to states where it is followed, if what is run follows it. -/
theorem Invariant.of_order {host : Host} {R : HeapOrder} (only : Request → Prop)
    (store : ∀ {s t : State}, R.From s → t.store = s.store → R.From t)
    (initial : ∀ (maxCallDepth : Int) (tracing : Bool),
      R.From { State.initial maxCallDepth with tracing })
    (run : ∀ ss, Along R (fun _ => True) ((interp host).run ss))
    (invoke : ∀ f owner args, Along R (fun _ => True) ((interp host).invoke f owner args none))
    (text : ∀ c, Along R (fun _ => True) (Exec.fullText (interp host) c none)) :
    Invariant host only R.From := by
  have inner : State.Inner R.From := fun _ _ h hs _ _ _ _ => store h hs
  have reset : Exec.Keeps R.From (modify State.reset) := .update fun _ hs => store hs rfl
  have library : Exec.Keeps R.From Exec.installLibrary := Along.installLibrary.keeps
  have popped : Exec.Keeps R.From Exec.popGlobal := by
    intro s hs
    unfold Exec.popGlobal
    rw [Exec.ends_get_bind]
    split
    · exact hs
    · exact store hs rfl
  exact {
    create := fun maxCallDepth standardLibrary tracing sources => by
      rw [state_create]
      exact (Exec.freshContext_ends (s := { State.initial maxCallDepth with tracing }) library
        standardLibrary (store (initial maxCallDepth tracing) rfl)).final
    fresh := fun standardLibrary _ hs =>
      Exec.freshContext_ends library standardLibrary (store hs rfl)
    trace := fun logger message => (Along.trace logger message).keeps
    runScript := fun script _ => inner.runScript reset (Along.newCell _).keeps
      (Along.prepared script.statements (run _)).keeps
    callFromHost := fun c args => by
      intro s hs
      unfold Exec.callFromHost
      rw [Exec.ends_value_bind]
      split
      · exact reset.bind
          (fun _ => (inner.withFrames (invoke _ _ _).keeps).mapFailure _) s hs
      · exact hs
    text := fun c => (text c).keeps
    addItem := fun name item _ =>
      ((HostItem.along_make item).after fun c => .addGlobal name c none).keeps
    addCell := fun name c _ => (Along.addGlobal name c none).keeps
    addFunction := fun name f => (Along.defineFunction name _).keeps
    addType := fun t _ => (Along.defineType t).keeps
    frames := fun _ => .update fun _ hs => inner hs rfl rfl rfl rfl rfl
    pushGlobal := .update fun _ hs => store hs rfl
    popGlobal := fun s hs _ => (popped s hs).final }

/-- However a host uses a session, members are cells of the storage. -/
theorem membersStored_of_reachable {host : Host} (hh : host.Stores) {only : Request → Prop}
    {session : Session} (h : Reachable host only session) : session.state.MembersStored := by
  have on := storing_withFuel hh fuel
  have all (ss : List Stmt) : Nodes.any.all false ss := fun _ _ => trivial
  refine (Invariant.of_order (R := Layers.storing.toHeapOrder) only
    (fun hs h => hs.of_objects (congrArg Store.objects h)
      (Nat.le_of_eq (congrArg (·.cells.size) h).symm)) (fun _ _ r e he => ?_)
    (fun ss => Layers.outer (Exec.Layered.both (on.run (all ss))))
    (fun f owner args =>
      Layers.outer (Exec.Layered.both (on.invoke (f := f) owner args none trivial)))
    fun c => Layers.outer (Exec.Layered.both (on.fullText c none trivial))).reachable h
  simp [State.initial, Store.empty, Store.object, Bindings.empty] at he

end Session

end CellScript
