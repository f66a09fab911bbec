import CellScript.Proofs.Detached.Steps

/-!
# Runs keep places tidy

Blocks, calls and realizations begin with a scope of their own. What the scopes around them own is
then pending, and what the inner scope owned is dropped at its end, or becomes members.

* `Exec.Tidies`: the step keeps sound and tidy states tidy, whatever is exempt and pending;
* `Exec.promote_orderly`: the names that a realization has bound become members;
* `tidy`: together with restoring, keeping states tidy is a congruence, so it holds of all
  expressions, statements, calls and texts.
-/

namespace CellScript

namespace Exec

variable {α β : Type} {X : String → Bool} {P : Cell → Prop}

/-- The step keeps sound and tidy states tidy, completed or failed. -/
def Tidies (x : Exec α) : Prop :=
  ∀ s : State, s.Sound → ∀ X P, s.Tidy X P → Orderly X P x s fun _ t => t.Tidy X P

/-! ## Steps around steps -/

theorem takeResult_tidies {x : Exec Unit} (hx : Tidies x) : Tidies (takeResult x) := by
  intro s hs X P h
  refine ((newCell_orderly h .undefined).restoring (l := .none)
    (Restores.newCell (v := .undefined) trivial) hs).bind fun c t ⟨ht, _, hsound, _⟩ => ?_
  have pushed : Orderly X P (pushReturn c) t fun _ u => u.Tidy X P ∧ u.Sound :=
    ⟨⟨ht.calm rfl rfl rfl, hsound.cells, hsound.types, hsound.globals⟩, .refl _⟩
  refine pushed.bind fun _ u hu => (hx u hu.2 X P hu.1).bind fun _ v hv => ?_
  have cleared : Calm (clear .ofReturn) :=
    calm_update (fun _ => rfl) (fun _ => rfl) fun _ => rfl
  exact (cleared.orderly hv).bind fun _ w hw => calm_popReturn.orderly hw

/-! ### Elements -/

/-- The cells of a list's elements are new ones. They are pending until the list is there. -/
theorem evaluateElements_orderly {l : Flags} {f : Expr → Exec Cell}
    (hr : ∀ e, Restores l (fun _ => True) (f e)) (hf : ∀ e, Tidies (f e)) (es : List Expr)
    {s : State} (hs : s.Sound) (h : s.Tidy X P) :
    Orderly X P (evaluateElements f es) s (AllOnTheWay X P) := by
  induction es generalizing s P with
  | nil => exact .pure (.nil h)
  | cons e es ih =>
    refine ((hf e s hs X P h).restoring (hr e) hs).bind fun c t ⟨ht, _, hsound, _⟩ => ?_
    refine ((copyCell_orderly ht c).restoring (l := .none) (Restores.copyCell c) hsound).bind
      fun d u ⟨hu, _, hsound, _⟩ => ?_
    exact ((ih hsound hu.1).weaken fun _ => Or.inl).bind fun cs v hv => .pure (.cons hu.2 hv)

theorem evaluateList_orderly {l : Flags} {f : Expr → Exec Cell}
    (hr : ∀ e, Restores l (fun _ => True) (f e)) (hf : ∀ e, Tidies (f e)) (es : List Expr) :
    Tidies (evaluateList f es) := by
  intro s hs X P h
  refine (evaluateElements_orderly hr hf es hs h).bind fun cs t ht => ?_
  have made := allocList_fresh ht.1 ht.2 cs.toArray fun d hd => Or.inr (List.mem_toArray.1 hd)
  exact made.bind fun r u hu => newCell_orderly hu.1 _

/-! ### Blocks and calls -/

theorem owned_all (a : Scope) : a.owned (fun _ => true) = [] := by simp [Scope.owned]

theorem enter_block {s : State} (h : s.Tidy X P) :
    (s.pushBlockScope .empty).Tidy (fun _ => true) fun c => P c ∨ c ∈ s.owned X :=
  h.enter rfl rfl (owned_all _)

theorem inBlock_tidies {l : Flags} {S : Unit → Prop} {x : Exec Unit} (hr : Restores l S x)
    (hx : Tidies x) : Tidies (inBlock x) := by
  intro s hs X P h
  unfold inBlock Orderly
  rw [ends_modify_bind]
  let t := s.pushBlockScope .empty
  have sound : t.Sound := ⟨hs.cells, hs.types, hs.globals⟩
  have inner : t.Tidy (fun _ => true) fun c => P c ∨ c ∈ s.owned X := enter_block h
  have popped {u : State} (hu : u.Tidy (fun _ => true) fun c => P c ∨ c ∈ s.owned X)
      (hb : t.Balanced u) (hgrows : t.store.Grows u.store) :
      popLocalScope.Ends u (fun _ v => v.Tidy X P ∧ s.store.Grows v.store)
        fun _ v => v.Tidy X P ∧ s.store.Grows v.store := by
    obtain ⟨g, hg⟩ := hb.locals.of_cons
    unfold popLocalScope
    simp only [ends_get_bind, hg, ends_set]
    have back := h.leave (u := { u with locals := s.locals }) hu rfl rfl rfl
    exact ⟨back.mono fun _ => Or.inl, hgrows⟩
  refine Ends.ensuring ((Ends.and (hx t sound _ _ inner) (hr t sound)).mono ?_ ?_)
  · rintro _ u ⟨⟨hu, hgrows⟩, -, -, hb, -⟩
    exact popped hu hb hgrows
  · rintro _ u ⟨⟨hu, hgrows⟩, -, -, hb, -⟩
    exact popped hu hb hgrows

theorem has_addAll {es : List (String × Cell)} {a : Scope} {name : String}
    (h : (es.foldl (fun a (name, c) => a.add name c) a).has name = true) :
    a.has name = true ∨ ∃ c, (name, c) ∈ es := by
  induction es generalizing a with
  | nil => exact Or.inl h
  | cons e es ih =>
    rcases ih h with ha | ⟨c, hc⟩
    · simp only [Scope.has, Scope.add, Bindings.contains, Bindings.find?_insert] at ha
      split at ha
      · next he => exact Or.inr ⟨e.2, he ▸ List.mem_cons_self⟩
      · exact Or.inl ha
    · exact Or.inr ⟨c, List.mem_cons_of_mem _ hc⟩

/-- The members of an object and the object itself are in scope, and nothing else is. -/
theorem memberScope_orderly {s : State} (h : s.Tidy X P) (r : ObjectRef) :
    Orderly X P (memberScope r) s fun a t => t.Tidy X P ∧ ∀ name, a.has name = true →
      name = "this" ∨ (t.store.object r).members.contains name = true := by
  refine (newCell_orderly h (.object r)).bind fun this t ht => ?_
  refine (storage_orderly ht).bind fun store u hstored => .pure ⟨hstored.1, fun name hname => ?_⟩
  obtain ⟨hu, rfl⟩ := hstored
  rcases has_addAll hname with hthis | ⟨c, hc⟩
  · refine Or.inl ?_
    simp only [Scope.has, Scope.add, Bindings.contains, Bindings.find?_insert] at hthis
    split at hthis
    · next he => exact he.symm
    · simp [Scope.empty, Bindings.empty, Bindings.find?, Bindings.lookup] at hthis
  · exact Or.inr (Bindings.contains_of_mem hc)

theorem ownerScope_orderly {s : State} (h : s.Tidy X P) (owner : Option ObjectRef) :
    Orderly X P (ownerScope owner) s fun _ t => t.Tidy X P := by
  cases owner with
  | none => exact .pure h
  | some r => exact (memberScope_orderly h r).bind fun _ _ ht => .pure ht.1

theorem argumentScope_orderly {s : State} (h : s.Tidy X P) (parameters : List String)
    (args : List Cell) (line : Option Nat) :
    Orderly X P (argumentScope parameters args line) s fun _ t => t.Tidy X P := by
  have bound : ∀ (a : Scope) (ps : List String) (as : List Cell) (s : State), s.Tidy X P →
      Orderly X P (bindArguments a ps as) s fun _ t => t.Tidy X P := by
    intro a ps as
    fun_induction bindArguments a ps as with
    | case1 a as => exact fun s hs => .pure hs
    | case2 a p ps ih => exact fun s hs => (newCell_orderly hs _).bind fun c t ht => ih c t ht
    | case3 a p ps c cs ih => exact ih
  unfold argumentScope
  split
  · exact .throw _ h
  · exact bound _ _ _ s h

theorem enter_call {s : State} (h : s.Tidy X P) (scope : Scope) (members : Option Scope) :
    (State.pushCall { s with callDepth := s.callDepth + 1 } scope members).Tidy (fun _ => true)
      fun c => P c ∨ c ∈ s.owned X := by
  cases members with
  | none => exact h.enter rfl rfl (owned_all _)
  | some a => exact h.enter rfl rfl (owned_all _)

theorem sound_pushCall {s : State} (hs : s.Sound) (scope : Scope) (members : Option Scope) :
    (State.pushCall { s with callDepth := s.callDepth + 1 } scope members).Sound := by
  cases members with
  | none => exact ⟨hs.cells, hs.types, hs.globals⟩
  | some a => exact ⟨hs.cells, hs.types, hs.globals⟩

/-- The names of a call are gone after it, and its arguments may be any cells. -/
theorem inCall_tidies {x : Exec Cell} (parameters : List String) (owner : Option ObjectRef)
    (args : List Cell) (line : Option Nat) (hr : Restores .none (fun _ => True) x)
    (hx : Tidies x) : Tidies (inCall parameters owner args line x) := by
  intro s hs X P h
  refine ((ownerScope_orderly h owner).restoring (l := .none) (Restores.ownerScope owner) hs).bind
    fun members s ⟨h, _, hs, _⟩ => ?_
  refine ((argumentScope_orderly h parameters args line).restoring (l := .none)
    (Restores.argumentScope parameters args line) hs).bind fun scope s ⟨h, _, hs, _⟩ => ?_
  unfold Orderly enterCall
  simp only [bind_assoc, ends_get_bind]
  split
  · exact ⟨h, .refl _⟩
  · unfold localDepth
    simp only [bind_assoc, pure_bind, ends_set_bind, ends_get_bind, ends_modify_bind]
    let t : State := State.pushCall { s with callDepth := s.callDepth + 1 } scope members
    have sound : t.Sound := sound_pushCall hs scope members
    have hstore : t.store = s.store := by cases members <;> rfl
    have inner : t.Tidy (fun _ => true) fun c => P c ∨ c ∈ s.owned X := enter_call h scope members
    have popped {u : State} (hu : u.Tidy (fun _ => true) fun c => P c ∨ c ∈ s.owned X)
        (hb : t.Balanced u) (hgrows : t.store.Grows u.store) :
        State.Tidy X P { u.popLocalsTo s.locals.length with callDepth := u.callDepth - 1 } ∧
          s.store.Grows u.store := by
      have dropped : u.locals.drop (u.locals.length - s.locals.length) = s.locals := by
        cases members with
        | none => exact Frame.Grown.drop_pushed [] hb.locals
        | some a => exact Frame.Grown.drop_pushed [⟨scope, false⟩] hb.locals
      have back := h.leave
        (u := { u.popLocalsTo s.locals.length with callDepth := u.callDepth - 1 })
        hu rfl rfl dropped
      exact ⟨back.mono fun _ => Or.inl, hstore ▸ hgrows⟩
    have body := (Ends.and (hx t sound _ _ inner) (hr t sound))
    refine Ends.ensuring (Ends.mapFailure (body.mono ?_ ?_))
    · rintro _ u ⟨⟨hu, hgrows⟩, -, -, hb, -⟩
      exact popped hu hb hgrows
    · rintro _ u ⟨⟨hu, hgrows⟩, -, -, hb, -⟩
      exact popped hu hb hgrows

/-! ## Realizations -/

/-- The cells in bindings of names that are not exempt. -/
def openCells (Y : String → Bool) (es : List (String × Cell)) : List Cell :=
  (es.filter fun e => !Y e.1).map (·.2)

theorem enter_realization {s : State} (h : s.Tidy X P) (obj : Cell) (members : Scope) :
    State.Tidy members.has (fun c => P c ∨ c ∈ s.owned X)
      { s.pushFunctionScope members with instants := obj :: s.instants } := by
  have exempt : members.owned members.has = [] := by
    unfold Scope.owned
    rw [List.map_eq_nil_iff, List.filter_eq_nil_iff]
    intro e he
    simp [Scope.has, Bindings.contains_of_mem he]
  exact h.enter rfl rfl exempt

/-- The names that a realization binds are pending after it. -/
theorem inRealization_orderly {l : Flags} {x : Exec Unit} (obj : Cell) (members : Scope)
    (hr : Restores l (fun _ => True) x) (hx : Tidies x) {s : State} (hs : s.Sound)
    (h : s.Tidy X P) :
    Orderly X P (inRealization obj members x) s fun bound t =>
      t.Tidy X (fun c => P c ∨ c ∈ openCells members.has bound.entries) ∧
      (openCells members.has bound.entries).Nodup ∧
      ∀ c ∈ openCells members.has bound.entries, ¬ P c := by
  unfold inRealization pushInstant Orderly
  rw [ends_modify_bind, ends_modify_bind]
  let t : State := { s.pushFunctionScope members with instants := obj :: s.instants }
  have sound : t.Sound := ⟨hs.cells, hs.types, hs.globals⟩
  have inner : t.Tidy members.has fun c => P c ∨ c ∈ s.owned X := enter_realization h obj members
  have body := Ends.and (hx t sound _ _ inner) (hr t sound)
  refine Ends.ensuring (Ends.bind (body.mono (fun _ _ h => h) ?_) ?_)
  · rintro _ u ⟨⟨hu, hgrows⟩, -, -, hb, -⟩
    obtain ⟨g, hg⟩ := hb.locals.of_cons
    have hi : u.instants = obj :: s.instants := hb.instants
    unfold popInstant popLocalScope
    simp only [bind_assoc, ends_get_bind, hi, ends_set_bind, hg, ends_set]
    have back := h.leave (u := { u with locals := s.locals, instants := s.instants }) hu rfl rfl rfl
    exact ⟨back.mono fun _ => Or.inl, hgrows⟩
  · rintro _ u ⟨⟨hu, hgrows⟩, -, -, hb, -⟩
    obtain ⟨g, hg⟩ := hb.locals.of_cons
    have hi : u.instants = obj :: s.instants := hb.instants
    have howned : u.owned members.has = openCells members.has g.scope.items.entries := by
      unfold State.owned
      rw [hg]
      rfl
    unfold popInstant popLocalScope innermostNames
    simp only [bind_assoc, ends_get_bind, hi, ends_set_bind, hg, ends_set, ends_pure]
    rw [← howned]
    exact ⟨⟨h.leave hu rfl rfl rfl, hu.owned, fun c hc hP => hu.pending c hc (Or.inl hP)⟩, hgrows⟩

theorem openCells_cons (Y : String → Bool) (name : String) (c : Cell)
    (rest : List (String × Cell)) :
    openCells Y ((name, c) :: rest) =
      if Y name then openCells Y rest else c :: openCells Y rest := by
  unfold openCells
  cases hY : Y name <;> simp [hY]

/-- Pending names become members, unless there are members of these names. -/
theorem promote_orderly (r : ObjectRef) {Y : String → Bool} {es : List (String × Cell)} {s : State}
    (h : s.Tidy X fun c => P c ∨ c ∈ openCells Y es) (hes : (openCells Y es).Nodup)
    (hP : ∀ c ∈ openCells Y es, ¬ P c)
    (hY : ∀ name, Y name = true → name = "this" ∨ (s.store.object r).members.contains name = true) :
    Orderly X P (promote r es) s fun _ t => t.Tidy X P := by
  induction es generalizing s with
  | nil => exact .pure (h.mono fun _ => Or.inl)
  | cons e rest ih =>
    obtain ⟨name, c⟩ := e
    have fewer (d : Cell) (hd : d ∈ openCells Y rest) : d ∈ openCells Y ((name, c) :: rest) := by
      rw [openCells_cons]
      split
      · exact hd
      · exact List.mem_cons_of_mem c hd
    have hrest : s.Tidy X fun d => P d ∨ d ∈ openCells Y rest :=
      h.mono fun d => Or.imp_right (fewer d)
    -- The others go the same way, in whatever state the first one leaves.
    have others {t : State} (ht : t.Tidy X fun d => P d ∨ d ∈ openCells Y rest)
        (hgrows : s.store.Grows t.store) :
        Orderly X P (promote r rest) t fun _ u => u.Tidy X P := by
      refine ih ht ?_ (fun d hd => hP d (fewer d hd)) fun n hn => (hY n hn).imp_right (hgrows r n)
      rw [openCells_cons] at hes
      split at hes
      · exact hes
      · exact (List.nodup_cons.1 hes).2
    have step {x : Exec Unit} (hx : Orderly X (fun d => P d ∨ d ∈ openCells Y rest) x s
        fun _ t => t.Tidy X fun d => P d ∨ d ∈ openCells Y rest) :
        Orderly X P (x >>= fun _ => promote r rest) s fun _ u => u.Tidy X P :=
      (hx.growing.weaken fun _ => Or.inl).bind fun _ t ht => others ht.1 ht.2
    refine Orderly.bind (Q := fun store t => s.store = store ∧ s = t) (.read ⟨rfl, rfl⟩) ?_
    rintro _ _ ⟨rfl, rfl⟩
    dsimp only
    split
    · next hnew =>
      refine Orderly.bind (Q := fun _ t => s = t) (.read rfl) fun v _ ht => ?_
      subst ht
      simp only [Bool.and_eq_true, bne_iff_ne, ne_eq, Bool.not_eq_true'] at hnew
      have hopen : Y name = false := by
        refine Bool.eq_false_iff.2 fun hname => ?_
        rcases hY name hname with hthis | hmember
        · exact hnew.1 hthis
        · exact absurd hmember (by simp [hnew.2])
      rw [openCells_cons, hopen] at h hes hP
      split
      · exact step (bindMethod_orderly hrest r name _)
      · refine step (setMember_orderly ⟨h.mono fun d hd => ?_, fun hc => ?_⟩ r name)
        · rcases hd with (hd | hd) | rfl
          · exact Or.inl hd
          · exact Or.inr (List.mem_cons_of_mem c hd)
          · exact Or.inr List.mem_cons_self
        · rcases hc with hc | hc
          · exact hP c List.mem_cons_self hc
          · exact (List.nodup_cons.1 hes).1 hc
    · exact others hrest (.refl _)

theorem bindParent_orderly {s : State} (h : s.Tidy X P) (r : ObjectRef) :
    Orderly X P (bindParent r) s fun _ t => t.Tidy X P := by
  refine Orderly.bind (Q := OnTheWay X P) ?_ fun c t ht => setMember_orderly ht r "parent"
  unfold copyInstant Orderly
  rw [ends_get_bind]
  split
  · exact copyCell_orderly h _
  · exact newCell_fresh (.plain h rfl rfl)

theorem fillObject_tidies {l : Flags} {x : Exec Unit} (obj : Cell) (r : ObjectRef)
    (hr : Restores l (fun _ => True) x) (hx : Tidies x) : Tidies (fillObject obj r x) := by
  intro s hs X P h
  refine ((memberScope_orderly h r).restoring (l := .none) (Restores.memberScope r) hs).bind
    fun members t ⟨⟨ht, hmembers⟩, _, hsound, _⟩ => ?_
  refine (inRealization_orderly obj members hr hx hsound ht).growing.bind
    fun bound u ⟨⟨hu, hnodup, hpending⟩, hgrows⟩ => ?_
  have promoted : Orderly X P (promote r bound.entries) u fun _ v => v.Tidy X P :=
    promote_orderly r hu hnodup hpending fun name hname =>
      (hmembers name hname).imp_right (hgrows r name)
  exact promoted.bind fun _ v hv => bindParent_orderly hv r

/-! ## The congruence -/

/-- The step restores, and keeps tidy states tidy. -/
def Tidied (l : Flags) (Q : α → Prop) (x : Exec α) : Prop := Restores l Q x ∧ Tidies x

namespace Tidied

variable {l m : Flags} {Q R : α → Prop}

theorem of_orderly {x : Exec α} (hr : Restores l Q x)
    (hx : ∀ {X P s}, s.Tidy X P → Orderly X P x s fun _ t => t.Tidy X P) : Tidied l Q x :=
  ⟨hr, fun _ _ _ _ h => hx h⟩

theorem of_calm {x : Exec α} (hr : Restores l Q x) (hx : Calm x) : Tidied l Q x :=
  of_orderly hr hx.orderly

theorem pure {a : α} (h : Q a) : Tidied l Q (pure a) :=
  of_orderly (Restores.pure h) fun ht => Orderly.pure ht

theorem throw {f : Failure} (h : f ≠ .emptyStack) : Tidied l Q (throw f : Exec α) :=
  of_orderly (Restores.throw h) (Orderly.throw f)

theorem bind {S : β → Prop} {x : Exec α} {f : α → Exec β} (hx : Tidied l Q x)
    (hf : ∀ a, Q a → Tidied l S (f a)) : Tidied l S (x >>= f) := by
  refine ⟨hx.1.bind fun a ha => (hf a ha).1, fun s hs X P h => ?_⟩
  exact ((hx.2 s hs X P h).restoring hx.1 hs).bind fun a t ⟨ht, ha, hsound, _⟩ =>
    (hf a ha).2 t hsound X P ht

theorem mono {x : Exec α} (hl : l.Below m) (hQ : ∀ a, Q a → R a) (h : Tidied l Q x) :
    Tidied m R x :=
  ⟨h.1.mono hl hQ, h.2⟩

theorem located {x : Exec α} (line : Option Nat) (h : Tidied l Q x) :
    Tidied l Q (mapFailure (Failure.located line) x) :=
  ⟨h.1.located line, fun s hs X P ht => (h.2 s hs X P ht).mapFailure _⟩

/-- Reading something of the state. -/
theorem read {f : State → α} (hr : Restores l Q (do return f (← get))) :
    Tidied l Q (do return f (← get)) :=
  of_orderly hr fun ht => Orderly.read ht

theorem clear (f : Flags) : Tidied l (fun _ => True) (clear f) :=
  of_calm (Restores.clear f) (calm_update (fun _ => rfl) (fun _ => rfl) fun _ => rfl)

theorem allocate {f : Store → α × Store} (hf : ∀ s, Store.Beside s (f s).2) :
    Tidied .none (fun _ => True) (allocate f) := by
  refine of_orderly (balance.allocate f hf) fun {X P s} h => ?_
  have beside := hf s.store
  refine ⟨tidy_beside h beside.cells beside.objects
    (fun c => (Store.isElement_congr beside.lists c).1) fun b hb => ?_, .of_objects beside.objects⟩
  cases b with
  | color r => exact Nat.lt_of_lt_of_le hb beside.colors
  | vector r => exact Nat.lt_of_lt_of_le hb beside.vectors
  | list r =>
    unfold Store.Has at hb ⊢
    rw [beside.lists]
    exact hb

theorem wholeLoop {x : Exec Unit} (hx : Tidied (.within true) (fun _ => True) x) :
    Tidied .ofReturn (fun _ => True) (do Exec.clear .ofBreak; x; Exec.clear .loopOwned) :=
  ⟨Restores.wholeLoop hx.1, ((clear _).bind fun _ _ => hx.bind fun _ _ => clear _).2⟩

theorem loopParts : LoopParts (fun x _ => Tidied (.within true) (fun _ => True) x)
    fun x _ => Tidied .ofReturn (fun _ => True) x where
  pure _ := pure trivial
  bind hx hf := hx.bind fun a _ => hf a
  outOfFuel := throw (by simp)
  clear := clear
  loopExit := read (Restores.isRaised _)
  whole := wholeLoop

theorem loopBefore {condition : Exec Bool} {body next : Exec Unit} (limit : Nat)
    (hc : Tidied .none (fun _ => True) condition)
    (hb : Tidied (.within true) (fun _ => True) body)
    (hn : Tidied .ofReturn (fun _ => True) next) :
    Tidied .ofReturn (fun _ => True) (loopBefore limit condition body next) :=
  loopParts.loopBefore (d := condition) (y := body) (v := next) limit
    (hc.mono (Flags.none_below _) fun _ h => h) hb
    (hn.mono (Flags.ofReturn_below_within _) fun _ h => h)

theorem loopAfter {condition : Exec Bool} {body : Exec Unit} (limit : Nat)
    (hc : Tidied .none (fun _ => True) condition)
    (hb : Tidied (.within true) (fun _ => True) body) :
    Tidied .ofReturn (fun _ => True) (loopAfter limit condition body) :=
  loopParts.loopAfter (d := condition) (y := body) limit
    (hc.mono (Flags.none_below _) fun _ h => h) hb

end Tidied

end Exec

open Exec (Restores Tidied)

/-- Restoring and keeping states tidy is a congruence. -/
def tidy : Congruence where
  Rel l _ Q x _ := Tidied l Q x
  pure := Tidied.pure
  bind := Tidied.bind
  mono := Tidied.mono
  throw _ := Tidied.throw
  located := Tidied.located
  storage := .read balance.storage
  frames := .read balance.frames
  value c := .read (balance.value c)
  find? name := .read (balance.find? name)
  findType? name := .read (balance.findType? name)
  newCell v hv := .of_orderly (balance.newCell v hv) fun h => Exec.newCell_orderly h v
  allocate _ := Tidied.allocate
  store c v line hv :=
    .of_orderly (balance.store c v line hv) fun h => Exec.store_orderly h c v line
  copyCell c := .of_orderly (balance.copyCell c) fun h => (Exec.copyCell_orderly h c).mono
    fun _ _ ht => ht.tidy
  append r c := .of_orderly (balance.append r c) fun h => Exec.append_orderly h r c
  evaluateList es hf := ⟨Restores.evaluateList es fun e => (hf e).1,
    Exec.evaluateList_orderly (fun e => (hf e).1) (fun e => (hf e).2) es⟩
  makeObject t ht := .of_orderly (balance.makeObject t ht) fun h => Exec.makeObject_orderly h t
  newMember owner name line := .of_orderly (balance.newMember owner name line)
    fun h => Exec.newMember_orderly h owner name line
  newName name line := .of_orderly (balance.newName name line)
    fun h => Exec.newName_orderly h name line
  declareFunction f hf := .of_orderly (balance.declareFunction f hf)
    fun h => Exec.declareFunction_orderly h f
  addType name t line ht := .of_orderly (balance.addType name t line ht)
    fun h => Exec.addType_orderly h name t line
  declareGlobal name := .of_orderly (balance.declareGlobal name)
    fun h => Exec.declareGlobal_orderly h name
  addAnonymous c := .of_orderly (balance.addAnonymous c) fun h => Exec.addAnonymous_orderly h c
  print t := .of_calm (balance.print t) fun _ => ⟨rfl, rfl, rfl⟩
  log level logger t := .of_calm (balance.log level logger t) fun _ => ⟨rfl, rfl, rfl⟩
  randomBetween a b := .of_calm (balance.randomBetween a b) fun _ => ⟨rfl, rfl, rfl⟩
  raise f := .of_calm (balance.raise f) fun _ => ⟨rfl, rfl, rfl⟩
  setReturn c line := .of_calm (balance.setReturn c line) (Exec.calm_setReturn c line)
  takeResult h := ⟨h.1.takeResult, Exec.takeResult_tidies h.2⟩
  inCall parameters owner args line h := ⟨h.1.inCall parameters owner args line,
    Exec.inCall_tidies parameters owner args line h.1 h.2⟩
  inBlock h := ⟨h.1.inBlock, Exec.inBlock_tidies h.1 h.2⟩
  loopBefore := Tidied.loopBefore
  loopAfter := Tidied.loopAfter
  fillObject obj r h := ⟨h.1.fillObject obj r, Exec.fillObject_tidies obj r h.1 h.2⟩

end CellScript
