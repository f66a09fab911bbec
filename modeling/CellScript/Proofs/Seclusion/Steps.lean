import CellScript.Proofs.Seclusion.Confined

/-!
# Steps inside of a call

Names are looked for up to the wall that a call puts up, new names and hoisted functions go to its
innermost scope, and a `return` has the slot of the call. So everything that runs inside of a call
is secluded from what lies below it; here is one lemma for each construct of the interpreter.
-/

namespace CellScript

namespace Exec

variable {α β : Type}

/-! ## Putting steps together -/

/-- What follows a step over a base follows it over the base. -/
theorem above_bind {x : Exec α} {f : α → Exec β} {s base : State} {Q : α → State → Prop}
    {E : Failure → State → Prop} (h : x (s.above base) = above base (x s)) (hx : x.Ends s Q E)
    (hf : ∀ a t, Q a t → f a (t.above base) = above base (f a t)) :
    (x >>= f) (s.above base) = above base ((x >>= f) s) := by
  change EStateM.bind x f _ = above base (EStateM.bind x f s)
  unfold EStateM.bind
  rw [h]
  cases hs : x s with
  | ok a t => exact hf a t (hx.ok hs)
  | error e t => rfl

theorem above_get {f : State → Exec β} {s base : State}
    (h : f (s.above base) (s.above base) = above base (f s s)) :
    (get >>= f) (s.above base) = above base ((get >>= f) s) := h

/-- Finishers may count what is below, so they may be others over a base. -/
theorem above_ensuring {x : Exec α} {finish finish' : Exec Unit} {s base : State}
    {Q : α → State → Prop} {E : Failure → State → Prop}
    (h : x (s.above base) = above base (x s)) (hx : x.Ends s Q E)
    (hQ : ∀ a t, Q a t → finish' (t.above base) = above base (finish t))
    (hE : ∀ f t, E f t → finish' (t.above base) = above base (finish t)) :
    ensuring x finish' (s.above base) = above base (ensuring x finish s) := by
  unfold ensuring
  rw [h]
  cases hs : x s with
  | ok a t =>
    simp only [above, hQ a t (hx.ok hs)]
    cases finish t <;> rfl
  | error e t =>
    simp only [above, hE e t (hx.error hs)]
    cases finish t <;> rfl

theorem above_mapFailure {x : Exec α} {s base : State} (g : Failure → Failure)
    (h : x (s.above base) = above base (x s)) :
    mapFailure g x (s.above base) = above base (mapFailure g x s) := by
  unfold mapFailure
  rw [h]
  cases x s <;> rfl

namespace Secluded

variable {l m : Flags} {P Q : α → Prop}

theorem pure {a : α} (h : Q a) : Secluded l Q (pure a) :=
  fun _ _ hs => ⟨rfl, h, .refl hs.closed⟩

theorem throw (f : Failure) : Secluded l Q (throw f : Exec α) := fun s _ _ => ⟨rfl, .refl s⟩

theorem bind {R : β → Prop} {x : Exec α} {f : α → Exec β} (hx : Secluded l P x)
    (hf : ∀ a, P a → Secluded l R (f a)) : Secluded l R (x >>= f) := by
  intro s base hs
  obtain ⟨habove, hends⟩ := hx s base hs
  refine ⟨above_bind habove hends fun a t ⟨ha, ht⟩ => (hf a ha t base (hs.kept ht)).1, ?_⟩
  refine Ends.bind hends fun a t ⟨ha, ht⟩ => ((hf a ha t base (hs.kept ht)).2).mono ?_ ?_
  · rintro b u ⟨hb, hu⟩
    exact ⟨hb, ht.trans hu⟩
  · intro e u hu
    exact ht.toLevel.trans hu

theorem mono {x : Exec α} (hl : l.Below m) (hQ : ∀ a, P a → Q a) (h : Secluded l P x) :
    Secluded m Q x := fun s base hs =>
  ⟨(h s base (hs.mono hl)).1, ((h s base (hs.mono hl)).2).mono
    (fun a _ ⟨ha, ht⟩ => ⟨hQ a ha, ht⟩) fun _ _ h => h⟩

theorem mapFailure {x : Exec α} (g : Failure → Failure) (h : Secluded l Q x) :
    Secluded l Q (mapFailure g x) := fun s base hs =>
  ⟨above_mapFailure g (h s base hs).1, Ends.mapFailure (h s base hs).2⟩

/-- Reading something that the base has no part in. -/
theorem read {f : State → α} (h : ∀ s base : State, s.Inside l → f (s.above base) = f s)
    (hQ : ∀ s : State, s.Closed → Q (f s)) : Secluded l Q (do return f (← get)) := by
  intro s base hs
  refine ⟨?_, hQ s hs.closed, .refl hs.closed⟩
  change EStateM.Result.ok (f (s.above base)) _ = EStateM.Result.ok (f s) _
  rw [h s base hs]

/-- A change that the base has no part in. -/
theorem update {f : State → State}
    (h : ∀ s base : State, s.Inside l → f (s.above base) = (f s).above base)
    (hf : ∀ s : State, s.Inside l → s.Kept (f s)) : Secluded l (fun _ => True) (modify f) := by
  intro s base hs
  refine ⟨?_, trivial, hf s hs⟩
  change EStateM.Result.ok () (f (s.above base)) = EStateM.Result.ok () ((f s).above base)
  rw [h s base hs]

theorem storage : Secluded l (fun _ => True) storage := Confined.storage.secluded Restores.storage

theorem value (c : Cell) : Secluded l Value.Closed (value c) :=
  (Confined.value c).secluded (Restores.value c)

theorem newCell {v : Value} (hv : v.Closed) : Secluded l (fun _ => True) (newCell v) :=
  (Confined.newCell v).secluded (Restores.newCell hv)

theorem evaluateList {f : Expr → Exec Cell} (es : List Expr)
    (hf : ∀ e, Secluded l (fun _ => True) (f e)) :
    Secluded l (fun _ => True) (evaluateList f es) := by
  have elements : Secluded l (fun _ => True) (evaluateElements f es) := by
    induction es with
    | nil => exact pure trivial
    | cons e es ih =>
      exact (hf e).bind fun _ _ =>
        ((Confined.copyCell _).secluded (Restores.copyCell _)).bind fun _ _ =>
          ih.bind fun _ _ => pure trivial
  refine elements.bind fun cs _ => bind (P := fun _ => True) ?_ fun _ _ => newCell trivial
  exact (Confined.allocate _).secluded (Restores.allocate fun _ hs => ⟨trivial, hs⟩)

/-! ### Scopes -/

theorem find?_above {s base : State} (h : s.Inside l) (name : String) :
    (s.above base).find? name = s.find? name := by
  unfold State.find? State.findLocal?
  rw [h.chain_above]
  rfl

theorem find? (name : String) : Secluded l (fun _ => True) (find? name) :=
  read (f := (·.find? name)) (fun _ _ hs => find?_above hs name) fun _ _ => trivial

theorem findType? (name : String) :
    Secluded l (fun t => ∀ u ∈ t, u.Closed) (findType? name) :=
  read (f := (·.findType? name)) (fun _ _ _ => rfl) fun _ hs _ ht => hs.sound.type ht

theorem addLocal_eq {s : State} (h : s.locals ≠ []) (name : String) (c : Cell) :
    Exec.addLocal name c s = .ok () (s.mapTop (·.add name c)) := by
  obtain ⟨_, _, locals⟩ := s
  cases locals with
  | nil => exact absurd rfl h
  | cons top below => rfl

theorem addLocal (name : String) (c : Cell) : Secluded l (fun _ => True) (addLocal name c) := by
  intro s base hs
  have hne := hs.walled.ne_nil
  have habove : (s.above base).locals ≠ [] := by simp [State.above, hne]
  unfold Ends
  rw [addLocal_eq hne, addLocal_eq habove, State.mapTop_above hne]
  exact ⟨rfl, trivial, .mapTop (fun a => a.grown_add name c) hs.closed⟩

/-- A change of the top global scope where new types are closed. -/
theorem kept_mapGlobal {s : State} {top a : Scope} {below : List Scope} (hs : s.Closed)
    (hg : s.globals = top :: below)
    (ha : ∀ t ∈ a.types.entries, t ∈ top.types.entries ∨ t.2.Closed) :
    s.Kept { s with globals := a :: below } := by
  refine ⟨⟨.refl _, rfl⟩, ⟨hs.cells, fun scope hscope => ?_⟩, rfl⟩
  rcases List.mem_cons.1 hscope with rfl | hscope
  · exact fun t ht => (ha t ht).elim (hs.types top (hg ▸ List.mem_cons_self) t) id
  · exact hs.types scope (hg ▸ List.mem_cons_of_mem _ hscope)

theorem addGlobal (name : String) (c : Cell) (line : Option Nat) :
    Secluded l (fun _ => True) (addGlobal name c line) := by
  intro s base hs
  refine ⟨above_get ?_, ?_⟩
  · have same : (s.above base).findGlobal? name = s.findGlobal? name := rfl
    rw [same]
    by_cases h : (s.findGlobal? name).isSome = true
    · simp only [h, if_true]
      rfl
    · obtain ⟨_, globals⟩ := s
      simp only [h]
      cases globals <;> rfl
  · refine .addGlobal (fun top below hg _ => ?_) fun _ _ => .refl _
    exact ⟨trivial, kept_mapGlobal hs.closed hg fun _ => Or.inl⟩

/-- A step chosen by what the base has no part in. -/
theorem choose {f : State → Exec α} (h : ∀ s base : State, s.Inside l → f (s.above base) = f s)
    (hf : ∀ s, Secluded l Q (f s)) : Secluded l Q (get >>= f) := by
  intro s base hs
  refine ⟨above_get ?_, (hf s s base hs).2⟩
  rw [h s base hs]
  exact (hf s s base hs).1

theorem isEmpty_above {s base : State} (h : s.Inside l) :
    (s.above base).locals.isEmpty = s.locals.isEmpty := by
  obtain ⟨top, below, hl⟩ := List.exists_cons_of_ne_nil h.walled.ne_nil
  simp [State.above, hl]

theorem newName (name : String) (line : Option Nat) :
    Secluded l (fun _ => True) (newName name line) := by
  refine (newCell (v := .undefined) trivial).bind fun c _ =>
    bind (P := fun _ => True) ?_ fun _ _ => pure trivial
  refine choose (fun s base hs => ?_) fun s => ?_
  · have declared : (s.above base).isDeclaredGlobal name = s.isDeclaredGlobal name := by
      unfold State.isDeclaredGlobal
      rw [hs.chain_above]
    rw [isEmpty_above hs, declared]
  · split
    · exact addLocal name c
    · exact addGlobal name c line

theorem declareFunction {f : FunctionDef Stmt} (hf : f.closed = true) :
    Secluded l (fun _ => True) (declareFunction f) := by
  refine (find? f.name).bind fun c _ => ?_
  split
  · refine (value _).bind fun v _ => ?_
    split
    · split
      · exact pure trivial
      · exact throw _
    · exact throw _
  · have hv : Value.Closed (.function (.script f.parameters f.body f.id) none) := by
      rwa [FunctionDef.closed_eq] at hf
    refine (newCell hv).bind fun c _ => choose (fun s base hs => ?_) fun s => ?_
    · rw [isEmpty_above hs]
    · split
      · exact addGlobal _ _ _
      · exact addLocal _ _

theorem addType (name : String) {t : ObjectType} (line : Option Nat) (ht : t.Closed) :
    Secluded l (fun _ => True) (addType name t line) := by
  intro s base hs
  refine ⟨above_get ?_, ?_⟩
  · obtain ⟨_, globals⟩ := s
    simp only [State.findType?, State.above]
    cases State.findTypeIn name globals with
    | some old =>
      by_cases h : (old.definition.isSome && old.definition == t.definition) = true
      · simp only [h, if_true]
        rfl
      · simp only [h]
        rfl
    | none => cases globals <;> rfl
  · refine .addType (fun old _ _ => ?_) (fun top below hg _ => ?_) (.refl _) fun _ => .refl _
    · exact ⟨trivial, .refl hs.closed⟩
    · refine ⟨trivial, kept_mapGlobal hs.closed hg fun u hu => ?_⟩
      rcases Bindings.mem_put hu with rfl | hu
      · exact Or.inr ht
      · exact Or.inl hu

theorem declareGlobal (name : String) :
    Secluded l (fun _ => True) (modify (·.declareGlobal name)) :=
  update (fun _ _ hs => State.mapTop_above hs.walled.ne_nil _)
    fun _ hs => .mapTop (fun a => a.grown_declareGlobal name) hs.closed

theorem addAnonymous (c : Cell) : Secluded l (fun _ => True) (addAnonymous c) := by
  intro s base hs
  have here (t : State) (ht : t.locals ≠ []) :
      Exec.addAnonymous c t = .ok () (t.mapTop (·.addAnonymous c)) := by
    obtain ⟨_, _, locals⟩ := t
    cases locals with
    | nil => exact absurd rfl ht
    | cons top below => rfl
  have hne := hs.walled.ne_nil
  have habove : (s.above base).locals ≠ [] := by simp [State.above, hne]
  unfold Ends
  rw [here s hne, here _ habove, State.mapTop_above hne]
  exact ⟨rfl, trivial, .mapTop (fun a => a.grown_addAnonymous c) hs.closed⟩

/-! ### Flags and results -/

theorem raise (f : Flags) : Secluded l (fun _ => True) (raise f) :=
  update (fun _ _ _ => rfl) fun _ hs => ⟨⟨.refl _, rfl⟩, ⟨hs.closed.cells, hs.closed.types⟩, rfl⟩

theorem clear (f : Flags) : Secluded l (fun _ => True) (clear f) :=
  update (fun _ _ _ => rfl) fun _ hs => ⟨⟨.refl _, rfl⟩, ⟨hs.closed.cells, hs.closed.types⟩, rfl⟩

theorem setReturn (c : Cell) (line : Option Nat) :
    Secluded .ofReturn (fun _ => True) (setReturn c line) := by
  intro s base hs
  obtain ⟨old, below, hr⟩ := List.exists_cons_of_ne_nil (hs.slot rfl)
  have here (t : State) (old : Cell) (below : List Cell) (ht : t.returns = old :: below) :
      Exec.setReturn c line t = .ok () { t with returns := c :: below } := by
    obtain ⟨_, _, _, returns⟩ := t
    cases ht
    rfl
  unfold Ends
  rw [here s old below hr,
    here (s.above base) old (below ++ base.returns) (by simp [State.above, hr])]
  exact ⟨rfl, trivial, ⟨.refl _, rfl⟩, ⟨hs.closed.cells, hs.closed.types⟩, by simp [hr]⟩

/-- The result is taken out of the slot that was added for it. -/
theorem takeResult {x : Exec Unit} (hx : Secluded .ofReturn (fun _ => True) x) :
    Secluded .none (fun _ => True) (takeResult x) := by
  refine (newCell (v := .undefined) trivial).bind fun c _ => ?_
  intro s base hs
  let u : State := { s with returns := c :: s.returns }
  have hu : u.Inside .ofReturn :=
    ⟨⟨hs.closed.cells, hs.closed.types⟩, hs.walled, fun _ => List.cons_ne_nil _ _⟩
  obtain ⟨habove, hends⟩ := hx u base hu
  have taken (t : State) (d : Cell) (below : List Cell) (ht : t.returns = d :: below) :
      (Exec.clear .ofReturn >>= fun _ => popReturn) t =
        .ok d { t.clear .ofReturn with returns := below } := by
    obtain ⟨_, _, _, returns⟩ := t
    cases ht
    rfl
  have slot {t : State} (ht : u.Kept t) : ∃ d below, t.returns = d :: below ∧
      below.length = s.returns.length := by
    have hlen := ht.returns
    cases hr : t.returns with
    | nil => simp [hr, u] at hlen
    | cons d below => exact ⟨d, below, rfl, by simpa [hr, u] using hlen⟩
  change (x >>= fun _ => Exec.clear .ofReturn >>= fun _ => popReturn) (u.above base) =
      above base ((x >>= fun _ => Exec.clear .ofReturn >>= fun _ => popReturn) u) ∧
    Ends (x >>= fun _ => Exec.clear .ofReturn >>= fun _ => popReturn) u _ _
  refine ⟨above_bind habove hends ?_,
    Ends.bind (hends.mono (fun _ _ h => h) fun _ _ h => ⟨h.locals, h.instants⟩) ?_⟩
  · rintro _ t ⟨-, ht⟩
    obtain ⟨d, below, hd, -⟩ := slot ht
    rw [taken t d below hd, taken _ d (below ++ base.returns) (by simp [State.above, hd])]
    rfl
  · rintro _ t ⟨-, ht⟩
    obtain ⟨d, below, hd, hlen⟩ := slot ht
    unfold Ends
    rw [taken t d below hd]
    exact ⟨trivial, ⟨ht.locals, ht.instants⟩, ⟨ht.closed.cells, ht.closed.types⟩, hlen⟩

/-! ### Steps around steps -/

theorem popLocalScope_eq {s : State} {f : Frame} {below : List Frame} (h : s.locals = f :: below) :
    popLocalScope s = .ok () { s with locals := below } := by
  obtain ⟨_, _, locals⟩ := s
  cases h
  rfl

/-- The scope of a block is gone after it. -/
theorem inBlock {x : Exec α} (hx : Secluded l Q x) : Secluded l Q (inBlock x) := by
  intro s base hs
  let u := s.pushBlockScope .empty
  have hu : u.Inside l := ⟨⟨hs.closed.cells, hs.closed.types⟩, hs.walled.cons, hs.slot⟩
  obtain ⟨habove, hends⟩ := hx u base hu
  have finish {t : State} (ht : u.Level t) :
      popLocalScope (t.above base) = above base (popLocalScope t) := by
    obtain ⟨g, hg⟩ := ht.locals.of_cons
    have hg' : (t.above base).locals = g :: (s.locals ++ base.locals) := by simp [State.above, hg]
    rw [popLocalScope_eq hg, popLocalScope_eq hg']
    rfl
  change ensuring x popLocalScope (u.above base) = above base (ensuring x popLocalScope u) ∧
    Ends (ensuring x popLocalScope) u _ _
  refine ⟨above_ensuring habove hends (fun _ _ h => finish h.2.toLevel) fun _ _ h => finish h,
    Ends.ensuring (hends.mono ?_ ?_)⟩
  · rintro a t ⟨ha, ht⟩
    obtain ⟨g, hg⟩ := ht.locals.of_cons
    unfold Ends
    rw [popLocalScope_eq hg]
    exact ⟨ha, ⟨.refl _, ht.instants⟩, ⟨ht.closed.cells, ht.closed.types⟩, ht.returns⟩
  · intro f t ht
    obtain ⟨g, hg⟩ := ht.locals.of_cons
    unfold Ends
    rw [popLocalScope_eq hg]
    exact ⟨.refl _, ht.instants⟩

/-- The names that a realization binds are its own. -/
theorem inRealization {x : Exec Unit} (obj : Cell) (members : Scope)
    (hx : Secluded l (fun _ => True) x) :
    Secluded l (fun _ => True) (inRealization obj members x) := by
  intro s base hs
  let u : State := { s.pushFunctionScope members with instants := obj :: s.instants }
  let run : Exec (Bindings Cell) := x >>= fun _ => innermostNames
  let finish : Exec Unit := popInstant >>= fun _ => popLocalScope
  have hu : u.Inside l := ⟨⟨hs.closed.cells, hs.closed.types⟩, hs.walled.cons, hs.slot⟩
  obtain ⟨habove, hends⟩ := hx u base hu
  have names {t : State} (ht : u.Level t) : ∃ names, innermostNames t = .ok names t ∧
      innermostNames (t.above base) = .ok names (t.above base) := by
    obtain ⟨_, _, locals⟩ := t
    obtain ⟨g, hg⟩ := ht.locals.of_cons
    cases hg
    exact ⟨_, rfl, rfl⟩
  have hrun : run (u.above base) = above base (run u) ∧
      run.Ends u (fun _ t => u.Kept t) fun _ t => u.Level t := by
    refine ⟨above_bind habove hends ?_, Ends.bind hends ?_⟩
    · rintro _ t ⟨-, ht⟩
      obtain ⟨ns, here, there⟩ := names ht.toLevel
      rw [here, there]
      rfl
    · rintro _ t ⟨-, ht⟩
      obtain ⟨ns, here, -⟩ := names ht.toLevel
      unfold Ends
      rw [here]
      exact ht
  have popped {t : State} (ht : u.Level t) :
      finish t = .ok () { t with instants := s.instants, locals := s.locals } ∧
        finish (t.above base) = above base (finish t) := by
    obtain ⟨_, _, locals, _, _, instants⟩ := t
    obtain ⟨g, hg⟩ := ht.locals.of_cons
    have hi := ht.instants
    cases hg
    cases hi
    exact ⟨rfl, rfl⟩
  change ensuring run finish (u.above base) = above base (ensuring run finish u) ∧
    Ends (ensuring run finish) u _ _
  refine ⟨above_ensuring hrun.1 hrun.2 (fun _ _ h => (popped h.toLevel).2)
    fun _ _ h => (popped h).2, Ends.ensuring (hrun.2.mono ?_ ?_)⟩
  · intro a t ht
    unfold Ends
    rw [(popped ht.toLevel).1]
    exact ⟨trivial, ⟨.refl _, rfl⟩, ⟨ht.closed.cells, ht.closed.types⟩, ht.returns⟩
  · intro f t ht
    unfold Ends
    rw [(popped ht).1]
    exact ⟨.refl _, rfl⟩

theorem bindParent (r : ObjectRef) : Secluded l (fun _ => True) (bindParent r) := by
  refine bind (P := fun _ => True) ?_ fun _ _ =>
    (Confined.updateStore _).secluded (Restores.updateStore fun _ hs => hs)
  refine choose (fun _ _ _ => rfl) fun s => ?_
  split
  · exact (Confined.copyCell _).secluded (Restores.copyCell _)
  · exact newCell (v := .undefined) trivial

theorem fillObject {x : Exec Unit} (obj : Cell) (r : ObjectRef)
    (hx : Secluded l (fun _ => True) x) : Secluded l (fun _ => True) (fillObject obj r x) :=
  ((Confined.memberScope r).secluded (Restores.memberScope r)).bind fun _ _ =>
    (inRealization obj _ hx).bind fun _ _ =>
      ((Confined.promote r _).secluded (Restores.promote r _)).bind fun _ _ => bindParent r

/-! ### Loops and sequences -/

theorem loopParts : LoopParts (fun x _ => Secluded .ofReturn (fun _ => True) x)
    fun x _ => Secluded .ofReturn (fun _ => True) x where
  pure _ := pure trivial
  bind hx hf := hx.bind fun a _ => hf a
  outOfFuel := throw _
  clear := clear
  loopExit := read (fun _ _ _ => rfl) fun _ _ => trivial
  whole hx := (clear _).bind fun _ _ => hx.bind fun _ _ => clear _

/-- Only a `return` needs a slot, so inside of a call jumps do not matter. -/
theorem ofReturn {x : Exec α} (h : Secluded (.within true) Q x) : Secluded .ofReturn Q x :=
  fun s base hs => h s base ⟨hs.closed, hs.walled, fun _ => hs.slot rfl⟩

theorem loopBefore {condition : Exec Bool} {body next : Exec Unit} (limit : Nat)
    (hc : Secluded .none (fun _ => True) condition)
    (hb : Secluded (.within true) (fun _ => True) body)
    (hn : Secluded .ofReturn (fun _ => True) next) :
    Secluded .ofReturn (fun _ => True) (loopBefore limit condition body next) :=
  loopParts.loopBefore (d := condition) (y := body) (v := next) limit
    (hc.mono (Flags.none_below _) fun _ h => h) hb.ofReturn hn

theorem loopAfter {condition : Exec Bool} {body : Exec Unit} (limit : Nat)
    (hc : Secluded .none (fun _ => True) condition)
    (hb : Secluded (.within true) (fun _ => True) body) :
    Secluded .ofReturn (fun _ => True) (loopAfter limit condition body) :=
  loopParts.loopAfter (d := condition) (y := body) limit
    (hc.mono (Flags.none_below _) fun _ h => h) hb.ofReturn

theorem runAll {execute : Stmt → Exec Unit} {ss : List Stmt}
    (h : ∀ st ∈ ss, Secluded l (fun _ => True) (execute st)) :
    Secluded l (fun _ => True) (runAll execute ss) := by
  induction ss with
  | nil => exact pure trivial
  | cons st ss ih =>
    refine (h st List.mem_cons_self).bind fun _ _ => choose (fun _ _ _ => rfl) fun s => ?_
    split
    · exact pure trivial
    · exact ih fun st hst => h st (List.mem_cons_of_mem _ hst)

end Secluded

end Exec

end CellScript
