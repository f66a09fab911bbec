import CellScript.Proofs.Realization.Stored

/-!
# What becomes of the names that a realization binds

The body of a realization runs in a scope that begins with the members of the object and goes its
own way from then on: an assignment to a new name binds the name in the scope, while one through
`this` gives the object a member that the scope does not know. When the body has run, the names that
are no members yet are promoted to members. A name that has become a member in another way meanwhile
is passed over, and what the scope has bound it to is lost.

* `Exec.construct`, `Exec.runRealization`, `Exec.finishRealization`: the phases of a realization,
  with the promotion between the last two, and `Exec.realize_of_found`: this is what it does;
* `realization_keeps_iff`: a name's value is kept exactly if the name is no member when the body has
  run, or is a member with that value already;
* `realization_loses_assignment`: a body whose last assignment is lost.
-/

namespace CellScript

open Exec (Along Layered)

/-! ## Phases -/

namespace Exec

variable (self : Interp) (typeName : String) (r : ObjectRef) (obj : Cell) (line : Nat)

/-- Make the object of a realization and call its constructor. -/
def construct (t : ObjectType) : Exec (ObjectRef × Cell) := do
  let r ← makeObject t
  let obj ← newCell (.object r)
  callIfMethod self obj typeName line
  return (r, obj)

/-- Run the body of a realization with the members of the object in scope, and give the names that
the scope binds at the end. -/
def runRealization (body : List Stmt) : Exec (Bindings Cell) := do
  let members ← memberScope r
  inRealization obj members do
    prepareAll body
    self.run body

/-- What is left of a realization when the names of its body are promoted. -/
def finishRealization : Exec Unit := do
  bindParent r
  callIfMethod self obj "realize" line
  addAnonymous obj

/-- A realization of a known type goes through its phases. -/
theorem realize_of_found {s : State} {t : ObjectType} (h : s.findType? typeName = some t)
    (body : List Stmt) :
    realize self typeName body line s =
      (construct self typeName line t >>= fun made => runRealization self made.1 made.2 body >>=
        fun bound => promote made.1 bound.entries >>= fun _ =>
          finishRealization self made.1 made.2 line) s := by
  unfold realize
  rw [findType?_bind_apply, h]
  simp only [construct, runRealization, finishRealization, fillObject, bind_assoc, pure_bind]

/-! ## What the phases do -/

section

variable {self : Interp} (on : storing.AgreeOn .any self self)

include on

/-- The new object is an object of the storage. -/
theorem construct_ends (t : ObjectType) {s : State} (hs : s.MembersStored) :
    (construct self typeName line t).Ends s
      (fun made u => u.MembersStored ∧ made.1.index < u.store.objects.size) fun _ _ => True := by
  let a : State := { s with store := (s.store.allocObject t.name).2 }
  let q : ObjectRef := ⟨s.store.objects.size⟩
  have ha : a.MembersStored := hs.allocObject t.name
  have inside : q.index < a.store.objects.size := by simp [a, q, Store.allocObject]
  have rest : Along Layers.storing (fun made : ObjectRef × Cell => made.1 = q) (do
      bindMethods q t.methods.entries
      let obj ← newCell (.object q)
      callIfMethod self obj typeName line
      return (q, obj)) :=
    (Along.bindMethods trivial _).after fun _ => (Along.newCell _).after fun obj =>
      (Layers.outer (Layered.both (on.callIfMethod obj typeName line))).after fun _ => .pure rfl
  refine (Ends.mono (x := construct self typeName line t) (Q := fun made u => made.1 = q ∧
    a.KeepsStored u) (E := fun _ _ => True) ?_ ?_ fun _ _ h => h)
  · have whole : construct self typeName line t s = (do
        bindMethods q t.methods.entries
        let obj ← newCell (.object q)
        callIfMethod self obj typeName line
        return (q, obj) : Exec (ObjectRef × Cell)) a := by
      simp only [construct, makeObject, bind_assoc, pure_bind]
      rfl
    unfold Ends
    rw [whole]
    exact (rest a ha).mono (fun _ _ h => h) fun _ _ _ => trivial
  · rintro made u ⟨same, kept⟩
    exact ⟨kept.members ha, same ▸ Nat.lt_of_lt_of_le inside kept.objects⟩

/-- The names that the body has bound are bound to cells of the storage. -/
theorem runRealization_ends (body : List Stmt) {s : State} (hs : s.MembersStored) :
    (runRealization self r obj body).Ends s
      (fun bound t => s.KeepsStored t ∧ bound.Stored t.store.cells.size) fun _ _ => True := by
  have all : Nodes.any.all false body := fun _ _ => trivial
  have full : (Fragment.declaring True).Full :=
    ⟨fun _ => trivial, trivial, trivial, trivial, trivial⟩
  have run : Inward .storing True (prepareAll body >>= fun _ => self.run body) :=
    on.prepareAndRun (full.declaresAll body) all
  exact (run.names_ends obj r hs).mono (fun _ _ h => ⟨h.1.1.1, h.2⟩) fun _ _ _ => trivial

end

/-- Detaching a value leaves the cells and the objects. -/
theorem detached_ends (v : Value) (s : State) : (detached v).Ends s
    (fun _ t => t.store.cells = s.store.cells ∧ t.store.objects = s.store.objects)
    fun _ _ => True := by
  unfold detached
  split
  · exact Ends.bind (Q := fun _ t => t = s) rfl fun _ t ht =>
      Ends.bind (Q := fun _ u => u = s) (by
        subst ht
        unfold ofNumber
        split
        · exact rfl
        · exact trivial) fun _ u hu => hu ▸ ⟨rfl, rfl⟩
  all_goals exact ⟨rfl, rfl⟩

/-- A new cell for a copy leaves the cells that there are and the objects. -/
theorem copyInstant_ends (s : State) : copyInstant.Ends s
    (fun _ t => (∀ d : Cell, d.index < s.store.cells.size → t.store.get d = s.store.get d) ∧
      t.store.objects = s.store.objects) fun _ _ => True := by
  have made (v : Value) {t : State} (hc : t.store.cells = s.store.cells)
      (ho : t.store.objects = s.store.objects) : (newCell v).Ends t
        (fun _ u => (∀ d : Cell, d.index < s.store.cells.size → u.store.get d = s.store.get d) ∧
          u.store.objects = s.store.objects) fun _ _ => True := by
    refine ⟨fun d hd => ?_, ho⟩
    have kept : t.store.get d = s.store.get d := by
      unfold Store.get
      rw [hc]
    exact (t.store.get_alloc_of_lt v d (by rwa [hc])).trans kept
  unfold copyInstant
  rw [ends_get_bind]
  split
  · exact Ends.bind (Q := fun _ t => t = s) rfl fun v t ht =>
      Ends.bind (detached_ends v t) fun w u hu => made w (ht ▸ hu.1) (ht ▸ hu.2)
  · exact made _ rfl rfl

/-- Telling an object its parent leaves its other members. -/
theorem bindParent_ends (s : State) : (bindParent r).Ends s
    (fun _ t => (∀ d : Cell, d.index < s.store.cells.size → t.store.get d = s.store.get d) ∧
      ∀ name, name ≠ "parent" → (t.store.object r).members.find? name =
        (s.store.object r).members.find? name) fun _ _ => True := by
  refine Ends.bind (copyInstant_ends s) fun c t ht => ⟨ht.1, fun name ne => ?_⟩
  change ((t.store.setMember r "parent" c).object r).members.find? name = _
  rw [Store.find?_setMember, if_neg fun h => ne h.1.symm]
  unfold Store.object
  rw [ht.2]

end Exec

/-! ## Names that are kept -/

/-- The object has a member of this name and value, which a free function has as its method. -/
def State.Carries (s : State) (r : ObjectRef) (name : String) (v : Value) : Prop :=
  ∃ d, (s.store.object r).members.find? name = some d ∧
    (s.store.get d = v ∨ s.store.get d = v.ownedBy r)

namespace State

variable {s t : State} {r : ObjectRef} {name : String} {v : Value}

/-- What is carried depends on the object and on the values of its members. -/
theorem carries_congr (hs : s.MembersStored)
    (hm : (t.store.object r).members.find? name = (s.store.object r).members.find? name)
    (hg : ∀ d : Cell, d.index < s.store.cells.size → t.store.get d = s.store.get d) :
    t.Carries r name v ↔ s.Carries r name v := by
  unfold Carries
  rw [hm]
  constructor
  · rintro ⟨d, hd, hv⟩
    rw [hg d ((hs r).find? hd)] at hv
    exact ⟨d, hd, hv⟩
  · rintro ⟨d, hd, hv⟩
    rw [← hg d ((hs r).find? hd)] at hv
    exact ⟨d, hd, hv⟩

/-- A member with another value carries none but that. -/
theorem not_carries {d : Cell} {w : Value} (hm : (s.store.object r).members.find? name = some d)
    (hw : s.store.get d = w) (hv : w ≠ v) (ho : w ≠ v.ownedBy r) : ¬ s.Carries r name v := by
  rintro ⟨e, he, h⟩
  rw [hm] at he
  cases he
  rw [hw] at h
  exact h.elim hv ho

/-- After the promotion, the value of a name is carried if the name was no member before, and
otherwise if it was carried before. -/
theorem Promoted.carries_iff {bound : List (String × Cell)} (h : s.Promoted r bound t)
    (hs : s.MembersStored) (hr : r.index < s.store.objects.size) {c : Cell}
    (this : name ≠ "this") (hb : Bindings.lookup name bound = some c) :
    t.Carries r name (s.store.get c) ↔
      (s.store.object r).members.find? name = none ∨ s.Carries r name (s.store.get c) := by
  cases hm : (s.store.object r).members.find? name with
  | none =>
    obtain ⟨d, hd, hv⟩ := h.promoted hr this hm hb
    exact ⟨fun _ => .inl rfl, fun _ => ⟨d, hd, .inr hv⟩⟩
  | some d =>
    have same := carries_congr (v := s.store.get c) hs ((h.member hm).trans hm.symm) h.get
    rw [same]
    simp

end State

/-- Where a realization of a known type has made its object and run its body, the names of the body
are promoted in any case, and what is left of the realization goes on from there. A name of the body
other than `this` and `parent` is then a member with the value that it had at the end of the body (a
free function being a method now) exactly if it was no member then, or was a member with this value
already; and it is so still when the object has been told its parent and its `realize` is called. -/
theorem realization_keeps_iff {host : Host} (hh : host.Stores) (fuel : Nat) {s : State}
    (hs : s.MembersStored) {typeName : String} {type : ObjectType}
    (found : s.findType? typeName = some type) (body : List Stmt) (line : Nat)
    {r : ObjectRef} {obj : Cell} {s₁ t : State} {bound : Bindings Cell}
    (constructed : Exec.construct (Interp.withFuel host fuel) typeName line type s =
      .ok (r, obj) s₁)
    (ran : Exec.runRealization (Interp.withFuel host fuel) r obj body s₁ = .ok bound t) :
    ∃ u, Exec.promote r bound.entries t = .ok () u ∧
      (Interp.withFuel host (fuel + 1)).execute (.realize typeName body line) s =
        Exec.finishRealization (Interp.withFuel host fuel) r obj line u ∧
      ∀ name c, name ≠ "this" → name ≠ "parent" → bound.find? name = some c →
        (u.Carries r name (t.store.get c) ↔ (t.store.object r).members.find? name = none ∨
          t.Carries r name (t.store.get c)) ∧
        ∀ v, Exec.bindParent r u = .ok () v →
          (v.Carries r name (t.store.get c) ↔ u.Carries r name (t.store.get c)) := by
  have on := storing_withFuel hh fuel
  obtain ⟨hs₁, hr₁⟩ := (Exec.construct_ends typeName line on type hs).ok constructed
  obtain ⟨kept, stored⟩ := (Exec.runRealization_ends r obj on body hs₁).ok ran
  have ht : t.MembersStored := kept.members hs₁
  have hr : r.index < t.store.objects.size := Nat.lt_of_lt_of_le hr₁ kept.objects
  have promotion := Exec.promote_ends r bound.entries stored
  cases promoting : Exec.promote r bound.entries t with
  | error f u => exact (promotion.error promoting).elim
  | ok _ u =>
    have promoted := promotion.ok promoting
    refine ⟨u, rfl, ?_, fun name c this parent hb => ⟨promoted.carries_iff ht hr this hb, ?_⟩⟩
    · change Exec.realize (Interp.withFuel host fuel) typeName body line s = _
      rw [Exec.realize_of_found _ _ _ found, Exec.bind_of_ok constructed, Exec.bind_of_ok ran,
        Exec.bind_of_ok promoting]
    · intro v hv
      obtain ⟨get, members⟩ := (Exec.bindParent_ends r u).ok hv
      exact State.carries_congr (promoted.kept.members ht) (members name parent) get

/-! ## A lost assignment -/

/-- A type without methods for a single object. -/
def bareInstant : ObjectType := Exec.typeOf true "T" [] ⟨0, 0⟩

/-- A state that knows the type and nothing else. -/
def State.knowingInstant : State :=
  { (State.initial 200).restart with
    globals := [{ Scope.empty with types := Bindings.empty.insert "T" bareInstant }] }

theorem State.membersStored_knowingInstant : State.knowingInstant.MembersStored := by
  intro r e he
  simp [knowingInstant, restart, reset, initial, Store.empty, Store.object, Bindings.empty] at he

theorem Host.stores_nothing : Host.Stores fun _ => pure none :=
  ⟨fun _ => .refl, fun _ _ _ => ⟨.of_eq rfl (Nat.le_refl _), .of_eq rfl⟩⟩

/-- `this.x = 2; x = 1; y = 3;` -/
def overtakenBody : List Stmt :=
  [.assign (.member (.name "this" .operand 1) "x" .location 1) (.integer 2 1) 1,
    .assign (.name "x" .location 1) (.integer 1 1) 1,
    .assign (.name "y" .location 1) (.integer 3 1) 1]

/-- In `T { this.x = 2; x = 1; y = 3; }` the value of `y` is kept and that of `x` is not. -/
theorem realization_keeps_iff_overtaken :
    let interp := Interp.withFuel (fun _ => pure none) 9
    let s := State.knowingInstant
    let s₁ := finalState (Exec.construct interp "T" 1 bareInstant s)
    let ran := Exec.runRealization interp ⟨0⟩ ⟨0⟩ overtakenBody s₁
    let bound := (Exec.result? ran).getD .empty
    let t := finalState ran
    s.MembersStored ∧ s.findType? "T" = some bareInstant ∧
      Exec.construct interp "T" 1 bareInstant s = .ok (⟨0⟩, ⟨0⟩) s₁ ∧ ran = .ok bound t ∧
      bound.find? "y" = some ⟨7⟩ ∧ t.store.get ⟨7⟩ = .integer 3 ∧
      bound.find? "x" = some ⟨5⟩ ∧ t.store.get ⟨5⟩ = .integer 1 ∧
      ∃ u, Exec.promote ⟨0⟩ bound.entries t = .ok () u ∧
        u.Carries ⟨0⟩ "y" (.integer 3) ∧ ¬ u.Carries ⟨0⟩ "x" (.integer 1) := by
  intro interp s s₁ ran bound t
  have constructed : Exec.construct interp "T" 1 bareInstant s = .ok (⟨0⟩, ⟨0⟩) s₁ :=
    Exec.eq_ok_of_result? (by decide +kernel)
  have completed : (Exec.result? ran).isSome = true := by decide +kernel
  have ended : Exec.runRealization interp ⟨0⟩ ⟨0⟩ overtakenBody s₁ = .ok bound t :=
    Exec.eq_ok_of_result? (Option.eq_some_iff_get_eq.2 ⟨completed, Option.get_eq_getD _⟩)
  obtain ⟨u, promoting, -, names⟩ := realization_keeps_iff Host.stores_nothing 9
    State.membersStored_knowingInstant (by cbv) overtakenBody 1 constructed ended
  have atY : bound.find? "y" = some ⟨7⟩ := by decide +kernel
  have atX : bound.find? "x" = some ⟨5⟩ := by decide +kernel
  have three : t.store.get ⟨7⟩ = .integer 3 := by decide +kernel
  have one : t.store.get ⟨5⟩ = .integer 1 := by decide +kernel
  have free : (t.store.object ⟨0⟩).members.find? "y" = none := by decide +kernel
  have taken : (t.store.object ⟨0⟩).members.find? "x" = some ⟨3⟩ := by decide +kernel
  have two : t.store.get ⟨3⟩ = .integer 2 := by decide +kernel
  have y := (names "y" ⟨7⟩ (by decide) (by decide) atY).1
  have x := (names "x" ⟨5⟩ (by decide) (by decide) atX).1
  rw [three] at y
  rw [one, taken] at x
  have lost : ¬ t.Carries ⟨0⟩ "x" (.integer 1) :=
    State.not_carries taken two (by simp) (by simp [Value.ownedBy])
  exact ⟨State.membersStored_knowingInstant, by cbv, constructed, ended, atY, three, atX,
    one, u, promoting, y.2 (.inl free), fun carried => lost ((x.1 carried).resolve_left (by simp))⟩

/-- The realization `T { this.x = 2; x = 1; y = 3; }` completes, and `x` is one at the end of its
body. When its names are promoted, and still when `realize` is called, the member `x` is two. -/
theorem realization_loses_assignment :
    let interp := Interp.withFuel (fun _ => pure none) 9
    let made := Exec.construct interp "T" 1 bareInstant State.knowingInstant
    let ran := Exec.runRealization interp ⟨0⟩ ⟨0⟩ overtakenBody (finalState made)
    let bound := (Exec.result? ran).getD .empty
    let promoted := Exec.promote ⟨0⟩ bound.entries (finalState ran)
    let told := Exec.bindParent ⟨0⟩ (finalState promoted)
    Exec.result? made = some (⟨0⟩, ⟨0⟩) ∧ (Exec.result? ran).isSome = true ∧
      bound.find? "x" = some ⟨5⟩ ∧ (finalState ran).store.get ⟨5⟩ = .integer 1 ∧
      Exec.result? promoted = some () ∧ Exec.result? told = some () ∧
      Exec.result? ((Interp.withFuel (fun _ => pure none) 10).execute
        (.realize "T" overtakenBody 1) State.knowingInstant) = some () ∧
      ¬ (finalState promoted).Carries ⟨0⟩ "x" (.integer 1) ∧
      ¬ (finalState told).Carries ⟨0⟩ "x" (.integer 1) := by
  intro interp made ran bound promoted told
  have lost {s : State} (hm : (s.store.object ⟨0⟩).members.find? "x" = some ⟨3⟩)
      (hv : s.store.get ⟨3⟩ = .integer 2) : ¬ s.Carries ⟨0⟩ "x" (.integer 1) :=
    State.not_carries hm hv (by simp) (by simp [Value.ownedBy])
  exact ⟨by decide +kernel, by decide +kernel, by decide +kernel, by decide +kernel,
    by decide +kernel, by decide +kernel, by decide +kernel,
    lost (by decide +kernel) (by decide +kernel), lost (by decide +kernel) (by decide +kernel)⟩

end CellScript
