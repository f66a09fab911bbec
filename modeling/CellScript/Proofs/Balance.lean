import CellScript.Proofs.Congruence.Interp
import CellScript.Proofs.Outcome

/-!
# Stacks are left as they were found

Blocks, loops, calls and realizations push on five stacks and counters and pop what they pushed,
whether what they enclose completes or fails.

* `State.Balanced`: the local scopes are the same ones, where only the innermost may have gained
  something, and the objects being realized, the number of global scopes and the number of active
  calls are the same;
* `State.Completed`: the result slots are the same, where only a `return` changes the top one, and
  no flags are up but those that were up and those that may be raised;
* `Exec.Restores`: a step keeps sound states sound and ends in balance, completed if it does not
  fail;
* `balance`: this is a congruence, so every expression, statement, call and text restores.
-/

namespace CellScript

/-! ## Balance -/

/-- The second scope is the first one with, perhaps, more in it. -/
structure Scope.Grown (a b : Scope) : Prop where
  names : a.items.names <+: b.items.names
  anonymous : a.anonymous <+: b.anonymous
  globalNames : a.globalNames <:+ b.globalNames
  types : b.types = a.types

/-- The same stack of local scopes; only the innermost may have gained something. -/
inductive Frame.Grown : List Frame → List Frame → Prop
  | none : Grown [] []
  | innermost {a b : Scope} (linked : Bool) (below : List Frame) : a.Grown b →
    Grown (⟨a, linked⟩ :: below) (⟨b, linked⟩ :: below)

/-- The stacks and counters of the second state are those of the first one. -/
structure State.Balanced (s t : State) : Prop where
  locals : Frame.Grown s.locals t.locals
  instants : t.instants = s.instants
  globals : t.globals.length = s.globals.length
  callDepth : t.callDepth = s.callDepth
  maxCallDepth : t.maxCallDepth = s.maxCallDepth
  frames : t.frames = s.frames

/-- What completing adds to balance, for a step that may raise the flags in `l`. -/
structure State.Completed (l : Flags) (s t : State) : Prop where
  length : t.returns.length = s.returns.length
  below : t.returns.tail = s.returns.tail
  returns : l.returning = false → t.returns = s.returns
  flags : t.flags.Below (s.flags.union l)

/-- Begun in a sound state, the step never meets an empty stack and ends in a sound state in
balance, completed or failed. -/
def Exec.Restores (l : Flags) {α : Type} (Q : α → Prop) (x : Exec α) : Prop :=
  ∀ s : State, s.Sound → x.Ends s
    (fun a t => Q a ∧ t.Sound ∧ s.Balanced t ∧ s.Completed l t)
    (fun f t => f ≠ .emptyStack ∧ t.Sound ∧ s.Balanced t ∧ s.returns.length ≤ t.returns.length)

namespace Scope

theorem Grown.refl (a : Scope) : a.Grown a :=
  ⟨List.prefix_refl _, List.prefix_refl _, List.suffix_refl _, rfl⟩

theorem Grown.trans {a b c : Scope} (h : a.Grown b) (h' : b.Grown c) : a.Grown c :=
  ⟨h.names.trans h'.names, h.anonymous.trans h'.anonymous, h.globalNames.trans h'.globalNames,
    h'.types.trans h.types⟩

theorem names_put {α : Type} (name : String) (a : α) (xs : List (String × α)) :
    xs.map (·.1) <+: (Bindings.put name a xs).map (·.1) := by
  induction xs with
  | nil => exact List.nil_prefix
  | cons x rest ih =>
    obtain ⟨n, b⟩ := x
    by_cases hn : n = name
    · simp [Bindings.put, hn]
    · simpa [Bindings.put, hn] using ih

theorem grown_add (a : Scope) (name : String) (c : Cell) : a.Grown (a.add name c) :=
  ⟨names_put name c a.items.entries, List.prefix_refl _, List.suffix_refl _, rfl⟩

theorem grown_addAnonymous (a : Scope) (c : Cell) : a.Grown (a.addAnonymous c) :=
  ⟨List.prefix_refl _, List.prefix_append _ _, List.suffix_refl _, rfl⟩

theorem grown_declareGlobal (a : Scope) (name : String) : a.Grown (a.declareGlobal name) := by
  unfold declareGlobal
  split
  · exact Grown.refl a
  · exact ⟨List.prefix_refl _, List.prefix_refl _, List.suffix_cons _ _, rfl⟩

end Scope

namespace Frame.Grown

theorem refl : (frames : List Frame) → Grown frames frames
  | [] => .none
  | f :: below => .innermost f.linked below (Scope.Grown.refl f.scope)

theorem trans {a b c : List Frame} (h : Grown a b) (h' : Grown b c) : Grown a c := by
  cases h with
  | none => exact h'
  | innermost linked below h =>
    cases h' with
    | innermost _ _ h' => exact .innermost linked below (h.trans h')

theorem of_nil {frames : List Frame} (h : Grown [] frames) : frames = [] := by
  cases h
  rfl

/-- What lies below the innermost scope has not changed. -/
theorem of_cons {f : Frame} {below frames : List Frame} (h : Grown (f :: below) frames) :
    ∃ g : Frame, frames = g :: below := by
  cases h with
  | innermost linked _ _ => exact ⟨_, rfl⟩

/-- Scopes pushed on a stack can be dropped again by its old length. -/
theorem drop_pushed {f : Frame} (pushed : List Frame) {frames t : List Frame}
    (h : Grown (f :: pushed ++ frames) t) : t.drop (t.length - frames.length) = frames := by
  rw [List.cons_append] at h
  obtain ⟨g, rfl⟩ := h.of_cons
  have hlen : (g :: (pushed ++ frames)).length - frames.length = (g :: pushed).length := by
    simp only [List.length_cons, List.length_append]
    omega
  rw [hlen, ← List.cons_append]
  exact List.drop_left

end Frame.Grown

namespace State

theorem Balanced.refl (s : State) : s.Balanced s := ⟨.refl _, rfl, rfl, rfl, rfl, rfl⟩

theorem Balanced.trans {s t u : State} (h : s.Balanced t) (h' : t.Balanced u) : s.Balanced u :=
  ⟨h.locals.trans h'.locals, h'.instants.trans h.instants, h'.globals.trans h.globals,
    h'.callDepth.trans h.callDepth, h'.maxCallDepth.trans h.maxCallDepth,
    h'.frames.trans h.frames⟩

theorem Completed.refl (l : Flags) (s : State) : s.Completed l s :=
  ⟨rfl, rfl, fun _ => rfl, by simp +contextual [Flags.Below, Flags.union]⟩

theorem Completed.trans {l : Flags} {s t u : State} (h : s.Completed l t) (h' : t.Completed l u) :
    s.Completed l u := by
  refine ⟨h'.length.trans h.length, h'.below.trans h.below,
    fun hl => (h'.returns hl).trans (h.returns hl), h'.flags.trans ?_⟩
  have hf := h.flags
  simp only [Flags.Below, Flags.union, Bool.or_eq_true] at hf ⊢
  exact ⟨fun h => h.elim hf.1 Or.inr, fun h => h.elim hf.2.1 Or.inr, fun h => h.elim hf.2.2 Or.inr⟩

theorem Completed.mono {l m : Flags} {s t : State} (hl : l.Below m) (h : s.Completed l t) :
    s.Completed m t := by
  refine ⟨h.length, h.below, fun hm => h.returns ?_, h.flags.trans ?_⟩
  · exact Bool.eq_false_iff.2 fun hr => by simp [hl.1 hr] at hm
  · simp only [Flags.Below, Flags.union, Bool.or_eq_true]
    exact ⟨Or.imp_right hl.1, Or.imp_right hl.2.1, Or.imp_right hl.2.2⟩

end State

/-! ## Steps that restore -/

namespace Exec.Restores

variable {α β : Type} {l m : Flags} {P Q : α → Prop}

theorem pure {a : α} (h : Q a) : Restores l Q (pure a) :=
  fun s hs => ⟨h, hs, .refl s, .refl l s⟩

theorem throw {f : Failure} (h : f ≠ .emptyStack) : Restores l Q (throw f : Exec α) :=
  fun s hs => ⟨h, hs, .refl s, Nat.le_refl _⟩

theorem bind {R : β → Prop} {x : Exec α} {f : α → Exec β} (hx : Restores l P x)
    (hf : ∀ a, P a → Restores l R (f a)) : Restores l R (x >>= f) := by
  intro s hs
  have failed := (hx s hs).mono (fun _ _ h => h) fun _ _ h => h
  refine Ends.bind failed fun a t ⟨ha, ht, hb, hc⟩ => ?_
  refine (hf a ha t ht).mono ?_ ?_
  · rintro b u ⟨hR, hu, hb', hc'⟩
    exact ⟨hR, hu, hb.trans hb', hc.trans hc'⟩
  · rintro e u ⟨he, hu, hb', hlen⟩
    exact ⟨he, hu, hb.trans hb', hc.length ▸ hlen⟩

theorem mono {x : Exec α} (hl : l.Below m) (hQ : ∀ a, P a → Q a) (h : Restores l P x) :
    Restores m Q x := fun s hs =>
  (h s hs).mono (fun a _ ⟨ha, ht, hb, hc⟩ => ⟨hQ a ha, ht, hb, hc.mono hl⟩) fun _ _ h => h

theorem mapFailure {x : Exec α} {g : Failure → Failure}
    (hg : ∀ f, f ≠ .emptyStack → g f ≠ .emptyStack) (h : Restores l Q x) :
    Restores l Q (mapFailure g x) := fun s hs =>
  Ends.mapFailure ((h s hs).mono (fun _ _ h => h) fun f _ ⟨hf, h⟩ => ⟨hg f hf, h⟩)

theorem located {x : Exec α} (line : Option Nat) (h : Restores l Q x) :
    Restores l Q (Exec.mapFailure (Failure.located line) x) := by
  refine h.mapFailure fun f hf => ?_
  unfold Failure.located
  split
  · simp
  · exact hf

theorem overrun {x : Exec α} (line : Option Nat) (h : Restores l Q x) :
    Restores l Q (Exec.mapFailure (Exec.overrun line) x) := by
  refine h.mapFailure fun f hf => ?_
  unfold Exec.overrun
  split
  · simp
  · exact hf

/-! ### Steps that change the storage or nothing -/

/-- Reading something of the state. -/
theorem read {f : State → α} (h : ∀ s : State, s.Sound → Q (f s)) :
    Restores l Q (do return f (← get)) :=
  fun s hs => ⟨h s hs, hs, .refl s, .refl l s⟩

/-- A change of the storage that leaves all values closed. -/
theorem allocate {f : Store → α × Store}
    (h : ∀ s : Store, (∀ v ∈ s.cells, v.Closed) → Q (f s).1 ∧ ∀ v ∈ (f s).2.cells, v.Closed) :
    Restores l Q (allocate f) := fun s hs =>
  ⟨(h s.store hs.cells).1, ⟨(h s.store hs.cells).2, hs.types, hs.globals⟩, ⟨.refl _, rfl, rfl, rfl,
    rfl, rfl⟩, ⟨rfl, rfl, fun _ => rfl, (State.Completed.refl l s).flags⟩⟩

theorem updateStore {f : Store → Store}
    (h : ∀ s : Store, (∀ v ∈ s.cells, v.Closed) → ∀ v ∈ (f s).cells, v.Closed) :
    Restores l (fun _ => True) (updateStore f) :=
  allocate (f := fun s => ((), f s)) fun s hs => ⟨trivial, h s hs⟩

theorem value (c : Cell) : Restores l Value.Closed (value c) := read fun _ hs => hs.value c

theorem storage : Restores l (fun _ => True) storage := read fun _ _ => trivial

theorem newCell {v : Value} (hv : v.Closed) : Restores l (fun _ => True) (newCell v) := by
  refine allocate fun s hs => ⟨trivial, fun w hw => ?_⟩
  rcases Array.mem_push.1 hw with hw | rfl
  · exact hs w hw
  · exact hv

theorem ofNumber (x : Except NumberFault α) : Restores l (fun _ => True) (ofNumber x) := by
  cases x with
  | ok a => exact pure trivial
  | error f => exact throw (by simp)

theorem numberOf (v : Value) (line : Option Nat) :
    Restores l (fun _ => True) (numberOf v line) := by
  unfold Exec.numberOf
  split
  · exact (ofNumber _).bind fun _ _ => pure trivial
  · exact pure trivial
  · exact storage.bind fun _ _ => ofNumber _
  · exact throw (by simp)

theorem detached {v : Value} (hv : v.Closed) : Restores l Value.Closed (detached v) := by
  unfold Exec.detached
  split
  · exact storage.bind fun _ _ => (ofNumber _).bind fun _ _ => pure trivial
  · exact bind (P := fun _ => True) (allocate fun _ hs => ⟨trivial, hs⟩) fun _ _ => pure trivial
  · exact bind (P := fun _ => True) (allocate fun _ hs => ⟨trivial, hs⟩) fun _ _ => pure trivial
  · exact bind (P := fun _ => True) (allocate fun _ hs => ⟨trivial, hs⟩) fun _ _ => pure trivial
  · exact pure hv

theorem copyCell (c : Cell) : Restores l (fun _ => True) (copyCell c) :=
  (value c).bind fun _ hv => (detached hv).bind fun _ hv => newCell hv

theorem closed_set {s : Store} {c : Cell} {v : Value} (hs : ∀ v ∈ s.cells, v.Closed)
    (hv : v.Closed) : ∀ w ∈ (s.set c v).cells, w.Closed := by
  intro w hw
  rcases Array.mem_or_eq_of_mem_setIfInBounds hw with hw | rfl
  · exact hs w hw
  · exact hv

theorem store (c : Cell) {v : Value} (line : Option Nat) (hv : v.Closed) :
    Restores l (fun _ => True) (store c v line) := by
  refine (value c).bind fun w _ => ?_
  split
  · next k _ =>
    exact (numberOf v line).bind fun x _ => updateStore fun s hs => by cases k <;> exact hs
  · exact (detached hv).bind fun _ hv => updateStore fun s hs => closed_set hs hv

theorem append (r : ListRef) (c : Cell) : Restores l (fun _ => True) (append r c) :=
  (copyCell c).bind fun _ _ => updateStore fun _ hs => hs

theorem evaluateElements {f : Expr → Exec Cell}
    (hf : ∀ e, Restores l (fun _ => True) (f e)) (es : List Expr) :
    Restores l (fun _ => True) (evaluateElements f es) := by
  induction es with
  | nil => exact pure trivial
  | cons e es ih =>
    exact (hf e).bind fun _ _ => (copyCell _).bind fun _ _ => ih.bind fun _ _ => pure trivial

theorem evaluateList {f : Expr → Exec Cell} (es : List Expr)
    (hf : ∀ e, Restores l (fun _ => True) (f e)) :
    Restores l (fun _ => True) (evaluateList f es) :=
  (evaluateElements hf es).bind fun _ _ =>
    bind (P := fun _ => True) (allocate fun _ hs => ⟨trivial, hs⟩) fun _ _ => newCell trivial

theorem bindMethod (r : ObjectRef) (name : String) {f : Callable} (hf : f.closed = true) :
    Restores l (fun _ => True) (bindMethod r name f) :=
  (newCell (v := .function f (some r)) hf).bind fun _ _ => updateStore fun _ hs => hs

theorem makeObject {t : ObjectType} (ht : t.Closed) :
    Restores l (fun _ => True) (makeObject t) := by
  have methods : ∀ (r : ObjectRef) (ms : List (String × Callable)),
      (∀ m ∈ ms, m.2.closed = true) → Restores l (fun _ => True) (bindMethods r ms) := by
    intro r ms
    induction ms with
    | nil => exact fun _ => pure trivial
    | cons m ms ih =>
      intro hms
      exact (bindMethod r m.1 (hms m List.mem_cons_self)).bind fun _ _ =>
        ih fun m hm => hms m (List.mem_cons_of_mem _ hm)
  exact bind (P := fun _ => True) (allocate fun _ hs => ⟨trivial, hs⟩) fun r _ =>
    (methods r _ ht).bind fun _ _ => pure trivial

theorem newMember (owner : Cell) (name : String) (line : Option Nat) :
    Restores l (fun _ => True) (newMember owner name line) := by
  refine (newCell (v := .undefined) trivial).bind fun c _ =>
    bind (P := fun _ => True) ?_ fun _ _ => pure trivial
  refine (value owner).bind fun v _ => ?_
  split
  · exact updateStore fun _ hs => hs
  · exact throw (by simp)

/-- A step that changes only the output and the source of random numbers. -/
theorem output {f : State → α × State}
    (h : ∀ s, ∃ printed logged random, (f s).2 = { s with printed, logged, random }) :
    Restores l (fun _ => True) (modifyGet f) := by
  intro s hs
  obtain ⟨printed, logged, random, hf⟩ := h s
  change True ∧ (f s).2.Sound ∧ s.Balanced (f s).2 ∧ s.Completed l (f s).2
  rw [hf]
  exact ⟨trivial, ⟨hs.cells, hs.types, hs.globals⟩, ⟨.refl _, rfl, rfl, rfl, rfl, rfl⟩,
    ⟨rfl, rfl, fun _ => rfl, (State.Completed.refl l s).flags⟩⟩

theorem trace (logger message : String) : Restores l (fun _ => True) (trace logger message) := by
  intro s hs
  unfold Exec.trace
  rw [ends_get_bind]
  split
  · exact output (fun _ => ⟨_, _, _, rfl⟩) s hs
  · exact pure trivial s hs

theorem memberScope (r : ObjectRef) : Restores l (fun _ => True) (memberScope r) :=
  (newCell (v := .object r) trivial).bind fun _ _ => storage.bind fun _ _ => pure trivial

/-! ### Steps that change scopes -/

/-- A change of the innermost local scope that only adds to it. -/
theorem mapTop {f : Scope → Scope} (hf : ∀ a : Scope, a.Grown (f a)) {s : State} (hs : s.Sound) :
    (s.mapTop f).Sound ∧ s.Balanced (s.mapTop f) ∧ s.Completed l (s.mapTop f) := by
  unfold State.mapTop
  split
  · exact ⟨hs, .refl s, .refl l s⟩
  · next top below hl =>
    refine ⟨⟨hs.cells, hs.types, hs.globals⟩, ⟨?_, rfl, rfl, rfl, rfl, rfl⟩,
      ⟨rfl, rfl, fun _ => rfl, (State.Completed.refl l s).flags⟩⟩
    rw [hl]
    exact .innermost _ _ (hf _)

/-- A change of the top global scope where new types are closed. -/
theorem mapGlobal {s : State} {top a : Scope} {below : List Scope} (hs : s.Sound)
    (hg : s.globals = top :: below)
    (ha : ∀ t ∈ a.types.entries, t ∈ top.types.entries ∨ t.2.Closed) :
    State.Sound { s with globals := a :: below } ∧
      s.Balanced { s with globals := a :: below } ∧
      s.Completed l { s with globals := a :: below } := by
  refine ⟨⟨hs.cells, ?_, by simp⟩, ⟨.refl _, rfl, by simp [hg], rfl, rfl, rfl⟩,
    ⟨rfl, rfl, fun _ => rfl, (State.Completed.refl l s).flags⟩⟩
  intro scope hscope
  rcases List.mem_cons.1 hscope with rfl | hscope
  · exact fun t ht => (ha t ht).elim (hs.types top (hg ▸ List.mem_cons_self) t) id
  · exact hs.types scope (hg ▸ List.mem_cons_of_mem _ hscope)

theorem addGlobal (name : String) (c : Cell) (line : Option Nat) :
    Restores l (fun _ => True) (addGlobal name c line) := by
  intro s hs
  refine .addGlobal (fun top below hg _ => ?_) fun _ _ => ?_
  · exact ⟨trivial, mapGlobal hs hg fun _ => Or.inl⟩
  · exact ⟨by simp, hs, .refl s, Nat.le_refl _⟩

theorem addLocal (name : String) (c : Cell) {s : State} (hs : s.Sound) (hl : s.locals ≠ []) :
    (addLocal name c).Ends s
      (fun _ t => True ∧ t.Sound ∧ s.Balanced t ∧ s.Completed l t)
      (fun f t => f ≠ .emptyStack ∧ t.Sound ∧ s.Balanced t ∧
        s.returns.length ≤ t.returns.length) :=
  .addLocal (fun _ => ⟨trivial, mapTop (fun a => a.grown_add name c) hs⟩)
    fun empty => absurd empty hl

theorem newName (name : String) (line : Option Nat) :
    Restores l (fun _ => True) (newName name line) := by
  refine (newCell (v := .undefined) trivial).bind fun c _ =>
    bind (P := fun _ => True) ?_ fun _ _ => pure trivial
  intro s hs
  refine .addName (fun nonempty _ => ?_) fun _ => ?_
  · exact addLocal name c hs nonempty
  · exact addGlobal name c line s hs

theorem declareFunction {f : FunctionDef Stmt} (hf : f.closed = true) :
    Restores l (fun _ => True) (declareFunction f) := by
  refine bind (P := fun _ => True) (read fun _ _ => trivial) fun c _ => ?_
  split
  · refine (value _).bind fun v _ => ?_
    split
    · split
      · exact pure trivial
      · exact throw (by simp)
    · exact throw (by simp)
  · have hv : Value.Closed (.function (.script f.parameters f.body f.id) none) := by
      rwa [FunctionDef.closed_eq] at hf
    refine (newCell hv).bind fun c _ => ?_
    intro s hs
    rw [ends_get_bind]
    split
    · exact addGlobal f.name c _ s hs
    · next h => exact addLocal f.name c hs (by simpa using h)

theorem addType (name : String) {t : ObjectType} (line : Option Nat) (ht : t.Closed) :
    Restores l (fun _ => True) (addType name t line) := by
  intro s hs
  refine .addType (fun old _ _ => ?_) (fun top below hg _ => ?_) ?_ fun hg => ?_
  · exact ⟨trivial, hs, .refl s, .refl l s⟩
  · refine ⟨trivial, mapGlobal hs hg fun u hu => ?_⟩
    rcases Bindings.mem_put hu with rfl | hu
    · exact Or.inr ht
    · exact Or.inl hu
  · exact ⟨by simp, hs, .refl s, Nat.le_refl _⟩
  · exact absurd hg hs.globals

theorem declareGlobal (name : String) :
    Restores l (fun _ => True) (modify (·.declareGlobal name)) :=
  fun _ hs => ⟨trivial, mapTop (fun a => a.grown_declareGlobal name) hs⟩

theorem addAnonymous (c : Cell) : Restores l (fun _ => True) (addAnonymous c) := by
  intro s hs
  refine .addAnonymous (fun _ => ?_) (fun top below hg => ?_) fun hg => ?_
  · exact ⟨trivial, mapTop (fun a => a.grown_addAnonymous c) hs⟩
  · exact ⟨trivial, mapGlobal hs hg fun _ => Or.inl⟩
  · exact absurd hg hs.globals

/-! ### Flags and results -/

theorem raise (f : Flags) : Restores f (fun _ => True) (raise f) := fun _ hs =>
  ⟨trivial, ⟨hs.cells, hs.types, hs.globals⟩, ⟨.refl _, rfl, rfl, rfl, rfl, rfl⟩,
    ⟨rfl, rfl, fun _ => rfl, .refl _⟩⟩

theorem clear (f : Flags) : Restores l (fun _ => True) (clear f) := by
  refine fun s hs => ⟨trivial, ⟨hs.cells, hs.types, hs.globals⟩, ⟨.refl _, rfl, rfl, rfl, rfl, rfl⟩,
    ⟨rfl, rfl, fun _ => rfl, ?_⟩⟩
  simp +contextual [State.clear, Flags.Below, Flags.diff, Flags.union]

theorem isRaised (f : Flags) : Restores l (fun _ => True) (isRaised f) := read fun _ _ => trivial

theorem setReturn (c : Cell) (line : Option Nat) :
    Restores .ofReturn (fun _ => True) (setReturn c line) := by
  intro s hs
  refine .setReturn (fun old below hr => ?_) fun _ => ?_
  · exact ⟨trivial, ⟨hs.cells, hs.types, hs.globals⟩, ⟨.refl _, rfl, rfl, rfl, rfl, rfl⟩,
      ⟨by simp [hr], by simp [hr], by simp [Flags.ofReturn], (State.Completed.refl _ s).flags⟩⟩
  · exact ⟨by simp, hs, .refl s, Nat.le_refl _⟩

/-- The slot for a result is there when the result is taken, and `return` is taken back. -/
theorem takeResult {x : Exec Unit} (hx : Restores .ofReturn (fun _ => True) x) :
    Restores .none (fun _ => True) (takeResult x) := by
  refine (newCell (v := .undefined) trivial).bind fun c _ => ?_
  intro s hs
  unfold Exec.pushReturn
  rw [ends_modify_bind]
  have pushed : State.Sound { s with returns := c :: s.returns } :=
    ⟨hs.cells, hs.types, hs.globals⟩
  have same : s.Balanced { s with returns := c :: s.returns } := ⟨.refl _, rfl, rfl, rfl, rfl, rfl⟩
  refine Ends.bind ((hx _ pushed).mono (fun _ _ h => h) ?_) ?_
  · rintro f t ⟨hf, ht, hb, hlen⟩
    exact ⟨hf, ht, same.trans hb, Nat.le_of_succ_le hlen⟩
  · rintro _ t ⟨-, ht, hb, hc⟩
    unfold Exec.clear Exec.popReturn
    rw [ends_modify_bind, ends_get_bind]
    obtain ⟨d, hd⟩ : ∃ d, t.returns = d :: s.returns := by
      have hlen := hc.length
      have hbelow := hc.below
      cases hr : t.returns with
      | nil => simp [hr] at hlen
      | cons d rest => exact ⟨d, by simpa [hr] using hbelow⟩
    have hd' : (t.clear .ofReturn).returns = d :: s.returns := hd
    simp only [hd', ends_set_bind, ends_pure, true_and]
    refine ⟨⟨ht.cells, ht.types, ht.globals⟩, same.trans ⟨hb.locals, hb.instants, hb.globals,
      hb.callDepth, hb.maxCallDepth, hb.frames⟩, ⟨rfl, rfl, fun _ => rfl, ?_⟩⟩
    have hflags := hc.flags
    simp only [Flags.Below, Flags.union, Flags.ofReturn, Flags.none, State.clear, Flags.diff,
      Bool.or_eq_true, Bool.and_eq_true, Bool.or_false] at hflags ⊢
    exact ⟨by simp, fun h => hflags.2.1 h.1, fun h => hflags.2.2 h.1⟩

/-! ### Steps around steps -/

theorem ownerScope (owner : Option ObjectRef) :
    Restores l (fun _ => True) (ownerScope owner) := by
  cases owner with
  | none => exact pure trivial
  | some r => exact (memberScope r).bind fun _ _ => pure trivial

theorem argumentScope (parameters : List String) (args : List Cell) (line : Option Nat) :
    Restores l (fun _ => True) (argumentScope parameters args line) := by
  have bound : ∀ (scope : Scope) (ps : List String) (as : List Cell),
      Restores l (fun _ => True) (bindArguments scope ps as) := by
    intro scope ps as
    fun_induction bindArguments scope ps as with
    | case1 scope as => exact pure trivial
    | case2 scope p ps ih => exact (newCell (v := .undefined) trivial).bind fun c _ => ih c
    | case3 scope p ps a as ih => exact ih
  unfold Exec.argumentScope
  split
  · exact throw (by simp)
  · exact bound _ _ _

/-- The scopes of a call are gone after it, and the call is not counted any more. -/
theorem inCall {x : Exec Cell} (parameters : List String) (owner : Option ObjectRef)
    (args : List Cell) (line : Option Nat) (hx : Restores .none (fun _ => True) x) :
    Restores .none (fun _ => True) (inCall parameters owner args line x) := by
  refine (ownerScope owner).bind fun members _ =>
    (argumentScope parameters args line).bind fun scope _ => ?_
  intro s hs
  unfold Exec.enterCall
  simp only [bind_assoc, ends_get_bind]
  split
  · exact ⟨by simp, hs, .refl s, Nat.le_refl _⟩
  · unfold localDepth
    simp only [bind_assoc, pure_bind, ends_set_bind, ends_get_bind, ends_modify_bind]
    let u : State := State.pushCall { s with callDepth := s.callDepth + 1 } scope members
    have hu : u.Sound := by
      cases members <;> exact ⟨hs.cells, hs.types, hs.globals⟩
    have dropped {t : State} (hb : u.Balanced t) :
        t.locals.drop (t.locals.length - s.locals.length) = s.locals := by
      cases members with
      | none => exact Frame.Grown.drop_pushed [] hb.locals
      | some a => exact Frame.Grown.drop_pushed [⟨scope, false⟩] hb.locals
    have popped {t : State} (hb : u.Balanced t) : s.Balanced
        { t.popLocalsTo s.locals.length with callDepth := t.callDepth - 1 } := by
      have hd : t.callDepth = s.callDepth + 1 := hb.callDepth.trans (by cases members <;> rfl)
      refine ⟨?_, hb.instants.trans (by cases members <;> rfl),
        hb.globals.trans (by cases members <;> rfl), ?_,
        hb.maxCallDepth.trans (by cases members <;> rfl),
        hb.frames.trans (by cases members <;> rfl)⟩
      · simp only [State.popLocalsTo, dropped hb]
        exact .refl _
      · simp only [hd]
        omega
    have returns : u.returns = s.returns := by cases members <;> rfl
    have flags : u.flags = s.flags := by cases members <;> rfl
    refine Ends.ensuring ((hx.overrun line u hu).mono ?_ ?_)
    · rintro c t ⟨-, ht, hb, hc⟩
      exact ⟨trivial, ⟨ht.cells, ht.types, ht.globals⟩, popped hb, ⟨returns ▸ hc.length,
        returns ▸ hc.below, fun h => returns ▸ hc.returns h, flags ▸ hc.flags⟩⟩
    · rintro f t ⟨hf, ht, hb, hlen⟩
      exact ⟨hf, ⟨ht.cells, ht.types, ht.globals⟩, popped hb, returns ▸ hlen⟩

/-- The scope of a block is gone after it. -/
theorem inBlock {x : Exec α} (hx : Restores l Q x) : Restores l Q (inBlock x) := by
  intro s hs
  unfold Exec.inBlock
  rw [ends_modify_bind]
  have hu : (s.pushBlockScope .empty).Sound := ⟨hs.cells, hs.types, hs.globals⟩
  have popped {t : State} (hb : (s.pushBlockScope .empty).Balanced t) :
      ∃ g, t.locals = g :: s.locals ∧ s.Balanced { t with locals := s.locals } := by
    obtain ⟨g, hg⟩ := hb.locals.of_cons
    exact ⟨g, hg, .refl _, hb.instants, hb.globals, hb.callDepth, hb.maxCallDepth, hb.frames⟩
  refine Ends.ensuring ((hx _ hu).mono ?_ ?_)
  · rintro a t ⟨ha, ht, hb, hc⟩
    obtain ⟨g, hg, hb'⟩ := popped hb
    unfold Exec.popLocalScope
    simp only [ends_get_bind, hg, ends_set]
    exact ⟨ha, ⟨ht.cells, ht.types, ht.globals⟩, hb', ⟨hc.length, hc.below, hc.returns, hc.flags⟩⟩
  · rintro f t ⟨hf, ht, hb, hlen⟩
    obtain ⟨g, hg, hb'⟩ := popped hb
    unfold Exec.popLocalScope
    simp only [ends_get_bind, hg, ends_set]
    exact ⟨hf, ⟨ht.cells, ht.types, ht.globals⟩, hb', hlen⟩

/-- The object being realized and its scope are gone after a realization. -/
theorem inRealization {x : Exec Unit} (obj : Cell) (members : Scope)
    (hx : Restores l (fun _ => True) x) :
    Restores l (fun _ => True) (inRealization obj members x) := by
  intro s hs
  unfold Exec.inRealization Exec.pushInstant
  rw [ends_modify_bind, ends_modify_bind]
  let u : State := { s.pushFunctionScope members with instants := obj :: s.instants }
  have hu : u.Sound := ⟨hs.cells, hs.types, hs.globals⟩
  have popped {t : State} (hb : u.Balanced t) : ∃ g, t.locals = g :: s.locals ∧
      t.instants = obj :: s.instants ∧
      s.Balanced { t with instants := s.instants, locals := s.locals } := by
    obtain ⟨g, hg⟩ := hb.locals.of_cons
    exact ⟨g, hg, hb.instants, .refl _, rfl, hb.globals, hb.callDepth, hb.maxCallDepth, hb.frames⟩
  refine Ends.ensuring (Ends.bind ((hx u hu).mono (fun _ _ h => h) ?_) ?_)
  · rintro f t ⟨hf, ht, hb, hlen⟩
    obtain ⟨g, hg, hi, hb'⟩ := popped hb
    unfold Exec.popInstant Exec.popLocalScope
    simp only [bind_assoc, ends_get_bind, hi, ends_set_bind, hg, ends_set]
    exact ⟨hf, ⟨ht.cells, ht.types, ht.globals⟩, hb', hlen⟩
  · rintro _ t ⟨-, ht, hb, hc⟩
    obtain ⟨g, hg, hi, hb'⟩ := popped hb
    unfold Exec.popInstant Exec.popLocalScope Exec.innermostNames
    simp only [bind_assoc, ends_get_bind, hi, ends_set_bind, hg, ends_set, ends_pure, true_and]
    exact ⟨⟨ht.cells, ht.types, ht.globals⟩, hb', ⟨hc.length, hc.below, hc.returns, hc.flags⟩⟩

theorem promote (r : ObjectRef) (entries : List (String × Cell)) :
    Restores l (fun _ => True) (promote r entries) := by
  induction entries with
  | nil => exact pure trivial
  | cons entry rest ih =>
    obtain ⟨name, c⟩ := entry
    refine storage.bind fun store _ => ?_
    dsimp only
    split
    · refine (value c).bind fun v hv => ?_
      split
      · exact (bindMethod r name hv).bind fun _ _ => ih
      · exact bind (updateStore (f := (·.setMember r name c)) fun _ hs => hs) fun _ _ => ih
    · exact ih

theorem bindParent (r : ObjectRef) : Restores l (fun _ => True) (bindParent r) := by
  refine bind (P := fun _ => True) ?_ fun _ _ => updateStore fun _ hs => hs
  intro s hs
  unfold Exec.copyInstant
  rw [ends_get_bind]
  split
  · exact copyCell _ s hs
  · exact newCell (v := .undefined) trivial s hs

theorem fillObject {x : Exec Unit} (obj : Cell) (r : ObjectRef)
    (hx : Restores l (fun _ => True) x) : Restores l (fun _ => True) (fillObject obj r x) :=
  (memberScope r).bind fun _ _ => (inRealization obj _ hx).bind fun _ _ =>
    (promote r _).bind fun _ _ => bindParent r

/-! ### Loops and sequences -/

/-- A loop takes back what its jumps have raised. -/
theorem wholeLoop {x : Exec Unit} (hx : Restores (.within true) (fun _ => True) x) :
    Restores .ofReturn (fun _ => True) (do Exec.clear .ofBreak; x; Exec.clear .loopOwned) := by
  refine (clear _).bind fun _ _ => ?_
  intro s hs
  refine Ends.bind (hx s hs) ?_
  rintro _ t ⟨-, ht, hb, hc⟩
  refine ⟨trivial, ⟨ht.cells, ht.types, ht.globals⟩,
    ⟨hb.locals, hb.instants, hb.globals, hb.callDepth, hb.maxCallDepth, hb.frames⟩,
    ⟨hc.length, hc.below, by simp [Flags.ofReturn], ?_⟩⟩
  have hflags := hc.flags
  simp only [Flags.Below, Flags.union, Flags.within, Flags.ofReturn, State.clear, Flags.diff,
    Flags.loopOwned, Bool.or_true, Bool.not_true, Bool.and_false] at hflags ⊢
  simp

theorem loopParts : LoopParts (fun x _ => Restores (.within true) (fun _ => True) x)
    fun x _ => Restores .ofReturn (fun _ => True) x where
  pure _ := pure trivial
  bind hx hf := hx.bind fun a _ => hf a
  outOfFuel := throw (by simp)
  clear := clear
  loopExit := isRaised _
  whole := wholeLoop

theorem loopBefore {condition : Exec Bool} {body next : Exec Unit} (limit : Nat)
    (hc : Restores .none (fun _ => True) condition)
    (hb : Restores (.within true) (fun _ => True) body)
    (hn : Restores .ofReturn (fun _ => True) next) :
    Restores .ofReturn (fun _ => True) (loopBefore limit condition body next) :=
  loopParts.loopBefore (d := condition) (y := body) (v := next) limit
    (hc.mono (Flags.none_below _) fun _ h => h) hb
    (hn.mono (Flags.ofReturn_below_within _) fun _ h => h)

theorem loopAfter {condition : Exec Bool} {body : Exec Unit} (limit : Nat)
    (hc : Restores .none (fun _ => True) condition)
    (hb : Restores (.within true) (fun _ => True) body) :
    Restores .ofReturn (fun _ => True) (loopAfter limit condition body) :=
  loopParts.loopAfter (d := condition) (y := body) limit
    (hc.mono (Flags.none_below _) fun _ h => h) hb

theorem runAll {execute : Stmt → Exec Unit} {ss : List Stmt}
    (h : ∀ st ∈ ss, Restores l (fun _ => True) (execute st)) :
    Restores l (fun _ => True) (runAll execute ss) := by
  induction ss with
  | nil => exact pure trivial
  | cons st ss ih =>
    refine (h st List.mem_cons_self).bind fun _ _ => ?_
    intro s hs
    rw [ends_get_bind]
    split
    · exact pure trivial s hs
    · exact ih (fun st hst => h st (List.mem_cons_of_mem _ hst)) s hs

end Exec.Restores

/-! ## The congruence -/

open Exec (Restores)

/-- Restoring is a congruence. -/
def balance : Congruence where
  Rel l _ Q x _ := Restores l Q x
  pure := Restores.pure
  bind := Restores.bind
  mono := Restores.mono
  throw _ := Restores.throw
  located := Restores.located
  storage := Restores.storage
  frames := Restores.read fun _ _ => trivial
  value := Restores.value
  find? _ := Restores.read fun _ _ => trivial
  findType? _ := Restores.read fun _ hs _ ht => hs.type ht
  newCell _ := Restores.newCell
  allocate _ h := Restores.allocate fun s hs => ⟨trivial, (h s).cells ▸ hs⟩
  store c _ line := Restores.store c line
  copyCell := Restores.copyCell
  append := Restores.append
  evaluateList es := Restores.evaluateList es
  makeObject _ := Restores.makeObject
  newMember := Restores.newMember
  newName := Restores.newName
  declareFunction _ := Restores.declareFunction
  addType name _ line := Restores.addType name line
  declareGlobal := Restores.declareGlobal
  addAnonymous := Restores.addAnonymous
  print _ := Restores.output fun _ => ⟨_, _, _, rfl⟩
  log _ _ _ := Restores.output fun _ => ⟨_, _, _, rfl⟩
  randomBetween _ _ := Restores.output fun _ => ⟨_, _, _, rfl⟩
  raise := Restores.raise
  setReturn := Restores.setReturn
  takeResult := Restores.takeResult
  inCall := Restores.inCall
  inBlock := Restores.inBlock
  loopBefore := Restores.loopBefore
  loopAfter := Restores.loopAfter
  fillObject := Restores.fillObject

/-- The interpreter of the language restores, whatever its fuel. -/
theorem balance_withFuel (host : Host) (n : Nat) :
    balance.Agree (Interp.withFuel host n) (Interp.withFuel host n) := by
  rw [Interp.withFuel_eq_tied]
  exact balance.agree_tied
    (fun hf hss => Restores.runAll fun st hst => hf (Stmt.closedAll_iff.1 hss st hst)) host n

end CellScript
