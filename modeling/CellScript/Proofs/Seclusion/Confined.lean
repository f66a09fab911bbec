import CellScript.Proofs.Balance

/-!
# States over others, and steps that look at the storage only

A call runs in a scope that does not see the scopes below it, and with a slot of its own for its
result. What lies below on the two stacks is called the base here.

* `State.above s base`: the state `s` with the local scopes, result slots and output of `base` below
  its own;
* `State.Inside`: the scopes of the current call are all in the state itself;
* `Exec.Secluded`: begun inside of a call, the step does over any base what it does without one;
* `Exec.Apart`: the same of a step begun anywhere;
* `Exec.Confined`: the step looks at the storage only and changes nothing else, so it is apart.
-/

namespace CellScript

/-! ## States over others -/

/-- Every program in the state is closed. -/
structure State.Closed (s : State) : Prop where
  cells : ∀ v ∈ s.store.cells, v.Closed
  types : ∀ scope ∈ s.globals, ∀ t ∈ scope.types.entries, t.2.Closed

/-- Whether one of the scopes does not see the scopes below it. -/
def Frame.Walled (frames : List Frame) : Prop := ∃ f ∈ frames, f.linked = false

namespace State

/-- The state with the local scopes, result slots and output of another one below its own. -/
def above (s base : State) : State :=
  { s with
    locals := s.locals ++ base.locals
    returns := s.returns ++ base.returns
    printed := s.printed ++ base.printed
    logged := s.logged ++ base.logged
    tracing := base.tracing }

/-- The state without local scopes, result slots and output. -/
def core (s : State) : State := { s with locals := [], returns := [], printed := [], logged := [] }

/-- A state inside of a call: its scopes can be seen to their end, and for a `return` there is a
slot. -/
structure Inside (l : Flags) (s : State) : Prop where
  closed : s.Closed
  walled : Frame.Walled s.locals
  slot : l.returning = true → s.returns ≠ []

/-- What every step keeps of a state inside of a call. -/
structure Level (s t : State) : Prop where
  locals : Frame.Grown s.locals t.locals
  instants : t.instants = s.instants

/-- What a step that completes keeps of a state inside of a call. -/
structure Kept (s t : State) : Prop extends s.Level t where
  closed : t.Closed
  returns : t.returns.length = s.returns.length

theorem core_above (s : State) : s.core.above s = s := rfl

/-- With an empty global scope more, a closed state is sound. -/
theorem Closed.sound {s : State} (h : s.Closed) :
    Sound { s with globals := .empty :: s.globals } := by
  refine ⟨h.cells, ?_, by simp⟩
  rintro scope hscope t ht
  rcases List.mem_cons.1 hscope with rfl | hscope
  · simp [Scope.empty, Bindings.empty] at ht
  · exact h.types scope hscope t ht

theorem Closed.of_store {s t : State} (h : s.Closed) (hg : t.globals = s.globals)
    (ht : ∀ v ∈ t.store.cells, v.Closed) : t.Closed :=
  ⟨ht, hg ▸ h.types⟩

theorem Level.refl (s : State) : s.Level s := ⟨.refl _, rfl⟩

theorem Level.trans {s t u : State} (h : s.Level t) (h' : t.Level u) : s.Level u :=
  ⟨h.locals.trans h'.locals, h'.instants.trans h.instants⟩

theorem Kept.refl {s : State} (h : s.Closed) : s.Kept s := ⟨.refl s, h, rfl⟩

theorem Kept.trans {s t u : State} (h : s.Kept t) (h' : t.Kept u) : s.Kept u :=
  ⟨h.toLevel.trans h'.toLevel, h'.closed, h'.returns.trans h.returns⟩

end State

theorem Frame.Walled.grown {a b : List Frame} (h : Walled a) (hg : Grown a b) : Walled b := by
  obtain ⟨f, hf, hl⟩ := h
  cases hg with
  | none => exact ⟨f, hf, hl⟩
  | innermost linked below _ =>
    rcases List.mem_cons.1 hf with rfl | hf
    · exact ⟨_, List.mem_cons_self, hl⟩
    · exact ⟨f, List.mem_cons_of_mem _ hf, hl⟩

theorem Frame.Walled.cons {f : Frame} {a : List Frame} (h : Walled a) : Walled (f :: a) := by
  obtain ⟨g, hg, hl⟩ := h
  exact ⟨g, List.mem_cons_of_mem _ hg, hl⟩

theorem Frame.Walled.ne_nil {a : List Frame} (h : Walled a) : a ≠ [] := by
  obtain ⟨f, hf, -⟩ := h
  exact List.ne_nil_of_mem hf

namespace State

/-- A wall ends the chain of scopes that a name is looked for in. -/
theorem chainOf_append {a : List Frame} (h : Frame.Walled a) (b : List Frame) :
    chainOf (a ++ b) = chainOf a := by
  induction a with
  | nil => exact absurd rfl h.ne_nil
  | cons f a ih =>
    simp only [List.cons_append, chainOf]
    cases hf : f.linked with
    | false => rfl
    | true =>
      obtain ⟨g, hg, hl⟩ := h
      have hga : g ∈ a := by
        rcases List.mem_cons.1 hg with rfl | hg
        · simp [hf] at hl
        · exact hg
      rw [if_pos rfl, if_pos rfl, ih ⟨g, hga, hl⟩]

variable {l : Flags} {s t base : State}

theorem Inside.kept (h : s.Inside l) (hk : s.Kept t) : t.Inside l := by
  refine ⟨hk.closed, h.walled.grown hk.locals, fun hl ht => h.slot hl ?_⟩
  have hlen := hk.returns
  rw [ht] at hlen
  exact List.length_eq_zero_iff.1 hlen.symm

theorem Inside.mono {m : Flags} (h : s.Inside m) (hl : l.Below m) : s.Inside l :=
  ⟨h.closed, h.walled, fun hr => h.slot (hl.1 hr)⟩

theorem Inside.chain_above (h : s.Inside l) : (s.above base).chain = s.chain :=
  chainOf_append h.walled _

theorem mapTop_above (h : s.locals ≠ []) (f : Scope → Scope) :
    (s.above base).mapTop f = (s.mapTop f).above base := by
  obtain ⟨_, _, locals⟩ := s
  cases locals with
  | nil => exact absurd rfl h
  | cons top below => rfl

theorem Kept.mapTop {f : Scope → Scope} (hf : ∀ a : Scope, a.Grown (f a)) (h : s.Closed) :
    s.Kept (s.mapTop f) := by
  unfold State.mapTop
  split
  · exact .refl h
  · next top below hl =>
    refine ⟨⟨?_, rfl⟩, ⟨h.cells, h.types⟩, rfl⟩
    rw [hl]
    exact .innermost _ _ (hf _)

end State

namespace Exec

variable {α β : Type}

/-- An outcome over a base. -/
def above (base : State) : EStateM.Result Failure State α → EStateM.Result Failure State α
  | .ok a t => .ok a (t.above base)
  | .error f t => .error f (t.above base)

/-- Inside of a call, the step does over any base what it does without one. -/
def Secluded (l : Flags) (Q : α → Prop) (x : Exec α) : Prop :=
  ∀ s base : State, s.Inside l → x (s.above base) = above base (x s) ∧
    x.Ends s (fun a t => Q a ∧ s.Kept t) fun _ t => s.Level t

/-- Wherever it begins, the step does over any base what it does without one, and leaves the local
scopes as they were. -/
def Apart (Q : α → Prop) (x : Exec α) : Prop :=
  ∀ s base : State, s.Closed → x (s.above base) = above base (x s) ∧
    x.Ends s (fun a t => Q a ∧ t.locals = s.locals ∧ s.Kept t)
      fun _ t => t.locals = s.locals ∧ s.Level t

/-! ## Steps that look at the storage only -/

/-- An outcome with nothing but its storage taken over into a state. -/
def storeInto (t : State) : EStateM.Result Failure State α → EStateM.Result Failure State α
  | .ok a u => .ok a { t with store := u.store }
  | .error f u => .error f { t with store := u.store }

/-- The step depends on the storage only and changes nothing else. -/
def Confined (x : Exec α) : Prop := ∀ s t : State, x { t with store := s.store } = storeInto t (x s)

namespace Confined

theorem pure (a : α) : Confined (pure a) := fun _ _ => rfl

theorem throw (f : Failure) : Confined (throw f : Exec α) := fun _ _ => rfl

theorem bind {x : Exec α} {k : α → Exec β} (hx : Confined x) (hk : ∀ a, Confined (k a)) :
    Confined (x >>= k) := by
  intro s t
  change EStateM.bind x k _ = storeInto t (EStateM.bind x k s)
  unfold EStateM.bind
  rw [hx s t]
  cases x s with
  | ok a u => exact hk a u t
  | error f u => rfl

theorem storage : Confined storage := fun _ _ => rfl

theorem value (c : Cell) : Confined (value c) := fun _ _ => rfl

theorem allocate (f : Store → α × Store) : Confined (allocate f) := fun _ _ => rfl

theorem updateStore (f : Store → Store) : Confined (updateStore f) := fun _ _ => rfl

theorem newCell (v : Value) : Confined (newCell v) := allocate _

theorem ofNumber (x : Except NumberFault α) : Confined (ofNumber x) := by
  cases x with
  | ok a => exact pure a
  | error f => exact throw _

theorem numberOf (v : Value) (line : Option Nat) : Confined (numberOf v line) := by
  unfold Exec.numberOf
  split
  · exact (ofNumber _).bind fun _ => pure _
  · exact pure _
  · exact storage.bind fun _ => ofNumber _
  · exact throw _

theorem detached (v : Value) : Confined (detached v) := by
  unfold Exec.detached
  split
  · exact storage.bind fun _ => (ofNumber _).bind fun _ => pure _
  · exact (allocate _).bind fun _ => pure _
  · exact (allocate _).bind fun _ => pure _
  · exact (allocate _).bind fun _ => pure _
  · exact pure _

theorem copyCell (c : Cell) : Confined (copyCell c) :=
  (value c).bind fun _ => (detached _).bind fun _ => newCell _

theorem store (c : Cell) (v : Value) (line : Option Nat) : Confined (store c v line) := by
  refine (value c).bind fun w => ?_
  split
  · exact (numberOf _ _).bind fun _ => updateStore _
  · exact (detached _).bind fun _ => updateStore _

theorem append (r : ListRef) (c : Cell) : Confined (append r c) :=
  (copyCell c).bind fun _ => updateStore _

theorem bindMethod (r : ObjectRef) (name : String) (f : Callable) :
    Confined (bindMethod r name f) :=
  (newCell _).bind fun _ => updateStore _

theorem makeObject (t : ObjectType) : Confined (makeObject t) := by
  have methods (r : ObjectRef) (ms : List (String × Callable)) : Confined (bindMethods r ms) := by
    induction ms with
    | nil => exact pure _
    | cons m ms ih => exact (bindMethod r m.1 m.2).bind fun _ => ih
  exact (allocate _).bind fun _ => (methods _ _).bind fun _ => pure _

theorem newMember (owner : Cell) (name : String) (line : Option Nat) :
    Confined (newMember owner name line) := by
  refine (newCell _).bind fun c => bind ((value owner).bind fun v => ?_) fun _ => pure _
  split
  · exact updateStore _
  · exact throw _

theorem memberScope (r : ObjectRef) : Confined (memberScope r) :=
  (newCell _).bind fun _ => storage.bind fun _ => pure _

theorem ownerScope (owner : Option ObjectRef) : Confined (ownerScope owner) := by
  cases owner with
  | none => exact pure _
  | some r => exact (memberScope r).bind fun _ => pure _

theorem argumentScope (parameters : List String) (args : List Cell) (line : Option Nat) :
    Confined (argumentScope parameters args line) := by
  have bound : ∀ (scope : Scope) (ps : List String) (as : List Cell),
      Confined (bindArguments scope ps as) := by
    intro scope ps as
    fun_induction bindArguments scope ps as with
    | case1 scope as => exact pure _
    | case2 scope p ps ih => exact (newCell _).bind fun c => ih c
    | case3 scope p ps a as ih => exact ih
  unfold Exec.argumentScope
  split
  · exact throw _
  · exact bound _ _ _

theorem promote (r : ObjectRef) (entries : List (String × Cell)) :
    Confined (promote r entries) := by
  induction entries with
  | nil => exact pure _
  | cons entry rest ih =>
    obtain ⟨name, c⟩ := entry
    refine storage.bind fun store => ?_
    dsimp only
    split
    · refine (value c).bind fun v => ?_
      split
      · exact (bindMethod _ _ _).bind fun _ => ih
      · exact (updateStore _).bind fun _ => ih
    · exact ih

variable {x : Exec α} {s : State} {Q : α → Prop} {l : Flags}

/-- A step that looks at the storage only does the same over any base. -/
theorem above_eq (h : Confined x) (s base : State) : x (s.above base) = above base (x s) := by
  have here := h s s
  change x s = _ at here
  have there := h s (s.above base)
  change x (s.above base) = _ at there
  rw [there]
  cases hx : x s with
  | ok a u =>
    rw [hx] at here
    simp only [storeInto, EStateM.Result.ok.injEq, true_and] at here
    rw [here]
    rfl
  | error f u =>
    rw [hx] at here
    simp only [storeInto, EStateM.Result.error.injEq, true_and] at here
    rw [here]
    rfl

/-- A step that looks at the storage only leaves the rest of a closed state alone. -/
theorem ends (h : Confined x) (hr : Restores l Q x) (hs : s.Closed) :
    x.Ends s (fun a t => Q a ∧ t.Closed ∧ t = { s with store := t.store })
      fun _ t => t = { s with store := t.store } := by
  have here := h s s
  change x s = _ at here
  have closed := hr _ hs.sound
  unfold Ends at closed ⊢
  have there := h s { s with globals := .empty :: s.globals }
  change x { s with globals := .empty :: s.globals } = _ at there
  rw [there] at closed
  cases hx : x s with
  | ok a u =>
    rw [hx] at here closed
    simp only [storeInto, EStateM.Result.ok.injEq, true_and] at here closed
    exact ⟨closed.1, hs.of_store (by rw [here]) closed.2.1.cells, here⟩
  | error f u =>
    rw [hx] at here
    simpa only [storeInto, EStateM.Result.error.injEq, true_and] using here

theorem secluded (h : Confined x) (hr : Restores l Q x) : Secluded l Q x := by
  intro s base hs
  refine ⟨h.above_eq s base, (h.ends hr hs.closed).mono ?_ ?_⟩
  · rintro a t ⟨ha, hc, ht⟩
    refine ⟨ha, ?_, hc, by rw [ht]⟩
    rw [ht]
    exact ⟨.refl _, rfl⟩
  · intro f t ht
    rw [ht]
    exact ⟨.refl _, rfl⟩

theorem apart (h : Confined x) (hr : Restores l Q x) : Apart Q x := by
  intro s base hs
  refine ⟨h.above_eq s base, (h.ends hr hs).mono ?_ ?_⟩
  · rintro a t ⟨ha, hc, ht⟩
    refine ⟨ha, by rw [ht], ?_, hc, by rw [ht]⟩
    rw [ht]
    exact ⟨.refl _, rfl⟩
  · intro f t ht
    rw [ht]
    exact ⟨rfl, .refl _, rfl⟩

end Confined

end Exec

end CellScript
