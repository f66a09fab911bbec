import CellScript.Proofs.Binding.Layers

/-!
# Members are cells of the storage

No member is a cell that is yet to be made. Members are bound to new cells, but for those that a
realization takes over from the scope of its body, and a name of that scope is bound to a member's
cell or to a new one. That is why the innermost local scope has to be followed as well.

* `State.MembersStored`: all members are cells of the storage;
* `Layers.storing`: members stay so, and the innermost scope gains nothing but cells of the storage;
* `Exec.Promoted`, `Exec.promote_ends`: what a realization leaves of the names that its body has
  bound;
* `storing`: this is a logic of all programs, and `storing_withFuel`: the interpreter keeps it.
-/

namespace CellScript

open Exec (Along Layered Inward)

/-! ## Stored cells -/

/-- What is bound is a cell of a storage with `n` cells. -/
def Bindings.Stored (b : Bindings Cell) (n : Nat) : Prop := ∀ e ∈ b.entries, e.2.index < n

/-- The members of all objects are cells of the storage. -/
def State.MembersStored (s : State) : Prop :=
  ∀ r, (s.store.object r).members.Stored s.store.cells.size

theorem Scope.items_declareGlobal (a : Scope) (name : String) :
    (a.declareGlobal name).items = a.items := by
  unfold Scope.declareGlobal
  split <;> rfl

/-- The names of the innermost local scope, if there is one. -/
def State.innermost (s : State) : Bindings Cell :=
  match s.locals with
  | top :: _ => top.scope.items
  | [] => .empty

/-- What the innermost local scope has gained are cells of the storage. -/
def State.GainsStored (s t : State) : Prop :=
  ∀ e ∈ t.innermost.entries, e ∈ s.innermost.entries ∨ e.2.index < t.store.cells.size

namespace Bindings.Stored

variable {b : Bindings Cell} {m n : Nat}

theorem mono (h : b.Stored m) (hmn : m ≤ n) : b.Stored n := fun e he => by
  have := h e he
  omega

theorem insert (h : b.Stored n) (name : String) {c : Cell} (hc : c.index < n) :
    (b.insert name c).Stored n := by
  intro e he
  rcases Bindings.mem_put he with rfl | he
  · exact hc
  · exact h e he

theorem find? (h : b.Stored n) {name : String} {c : Cell} (hc : b.find? name = some c) :
    c.index < n :=
  h (name, c) (Bindings.mem_of_lookup hc)

end Bindings.Stored

namespace State.MembersStored

variable {s t : State}

theorem of_objects (hs : s.MembersStored) (ho : t.store.objects = s.store.objects)
    (hc : s.store.cells.size ≤ t.store.cells.size) : t.MembersStored := by
  intro r
  unfold Store.object
  rw [ho]
  exact (hs r).mono hc

theorem setMember (hs : s.MembersStored) (r : ObjectRef) (name : String) {c : Cell}
    (hc : c.index < s.store.cells.size) :
    State.MembersStored { s with store := s.store.setMember r name c } := by
  intro q
  change ((s.store.setMember r name c).object q).members.Stored s.store.cells.size
  rcases Nat.lt_or_ge r.index s.store.objects.size with inside | outside
  · by_cases hq : q = r
    · rw [hq, s.store.members_setMember r name c inside]
      exact (hs r).insert name hc
    · rw [s.store.object_setMember_of_ne r q name c fun h => hq (by cases q; cases r; simp_all)]
      exact hs q
  · rw [s.store.object_setMember_of_le r name c outside q]
    exact hs q

theorem allocObject (hs : s.MembersStored) (typeName : String) :
    State.MembersStored { s with store := (s.store.allocObject typeName).2 } := by
  intro q
  rcases s.store.object_allocObject q typeName with same | none
  · exact same ▸ hs q
  · change ((s.store.allocObject typeName).2.object q).members.Stored s.store.cells.size
    rw [none]
    exact fun e he => by cases he

end State.MembersStored

/-- Members stay cells of the storage, and neither cells nor objects are lost. -/
structure State.KeepsStored (s t : State) : Prop where
  cells : s.store.cells.size ≤ t.store.cells.size
  objects : s.store.objects.size ≤ t.store.objects.size
  members : s.MembersStored → t.MembersStored

namespace State.KeepsStored

variable {s t u : State}

theorem of_eq (ho : t.store.objects = s.store.objects)
    (hc : s.store.cells.size ≤ t.store.cells.size) : s.KeepsStored t :=
  ⟨hc, Nat.le_of_eq (congrArg Array.size ho).symm, fun hs => hs.of_objects ho hc⟩

theorem trans (h : s.KeepsStored t) (h' : t.KeepsStored u) : s.KeepsStored u :=
  ⟨Nat.le_trans h.cells h'.cells, Nat.le_trans h.objects h'.objects, h'.members ∘ h.members⟩

theorem setMember {r : ObjectRef} {name : String} {c : Cell} (hc : c.index < s.store.cells.size) :
    s.KeepsStored { s with store := s.store.setMember r name c } :=
  ⟨Nat.le_refl _, Nat.le_of_eq (s.store.objects_setMember_size r name c).symm,
    fun hs => hs.setMember r name hc⟩

end State.KeepsStored

namespace State

variable {s t u : State}

theorem innermost_congr (h : t.locals = s.locals) : t.innermost = s.innermost := by
  unfold innermost
  rw [h]

/-- A change of the innermost scope, if there is one. -/
theorem innermost_mapTop (s : State) (f : Scope → Scope) :
    (s.mapTop f).innermost = s.innermost ∨
      ∃ a, s.innermost = a.items ∧ (s.mapTop f).innermost = (f a).items := by
  cases hl : s.locals with
  | nil =>
    have same : s.mapTop f = s := by simp only [mapTop, hl]
    exact .inl (by rw [same])
  | cons top below =>
    exact .inr ⟨top.scope, by simp [innermost, hl], by simp [innermost, mapTop, hl]⟩

theorem GainsStored.trans (h : s.GainsStored t) (hc : t.store.cells.size ≤ u.store.cells.size)
    (h' : t.GainsStored u) : s.GainsStored u := by
  intro e he
  rcases h' e he with he | he
  · exact (h e he).imp_right fun he => Nat.lt_of_lt_of_le he hc
  · exact .inr he

theorem GainsStored.of_eq (h : t.innermost.entries = s.innermost.entries) : s.GainsStored t :=
  fun _ he => .inl (h ▸ he)

theorem GainsStored.mapTop (s : State) {f : Scope → Scope} (hf : ∀ a, (f a).items = a.items) :
    s.GainsStored (s.mapTop f) := by
  refine .of_eq ?_
  rcases s.innermost_mapTop f with same | ⟨a, before, after⟩
  · rw [same]
  · rw [before, after, hf a]

theorem GainsStored.add (s : State) (name : String) {c : Cell}
    (hc : c.index < s.store.cells.size) : s.GainsStored (s.mapTop (·.add name c)) := by
  intro e he
  rcases s.innermost_mapTop (·.add name c) with same | ⟨a, before, after⟩
  · exact .inl (same ▸ he)
  · rw [after] at he
    rcases Bindings.mem_put he with rfl | he
    · exact .inr (by rwa [s.store_mapTop])
    · exact .inl (before ▸ he)

end State

/-- Members stay cells of the storage, and the innermost scope gains nothing else. -/
def Layers.storing : Layers where
  Le := State.KeepsStored
  From := State.MembersStored
  Made _ := True
  Inner := State.GainsStored
  refl _ := .of_eq rfl (Nat.le_refl _)
  trans := .trans
  keeps hs h := h.members hs
  shared h := .of_eq h.objects h.cells
  anonymous _ _ := .of_eq rfl (Nat.le_refl _)
  addType _ _ _ := .of_eq rfl (Nat.le_refl _)
  addGlobal _ _ _ := .of_eq rfl (Nat.le_refl _)
  allocObject s typeName := ⟨Nat.le_refl _, by simp [Store.allocObject],
    fun hs => hs.allocObject typeName⟩
  made _ := trivial
  setMember _ hc := .setMember hc
  inner_trans h hc h' := h.trans hc.cells h'
  level _ hl := .of_eq (by rw [State.innermost_congr hl])
  unnamed s _ hi _ := .mapTop s hi
  named _ hc := .add _ _ hc

/-! ## Promotion -/

/-- The value as a member of an object: a free function becomes one of its methods. -/
def Value.ownedBy (r : ObjectRef) : Value → Value
  | .function f none => .function f (some r)
  | v => v

/-- What becomes of an object whose realization has bound names: the members that it has stay as
they are, and the other names become members. -/
structure State.Promoted (r : ObjectRef) (bound : List (String × Cell)) (s t : State) : Prop where
  kept : s.KeepsStored t
  locals : t.locals = s.locals
  get (c : Cell) : c.index < s.store.cells.size → t.store.get c = s.store.get c
  member {name : String} {c : Cell} : (s.store.object r).members.find? name = some c →
    (t.store.object r).members.find? name = some c
  promoted {name : String} {c : Cell} : r.index < s.store.objects.size → name ≠ "this" →
    (s.store.object r).members.find? name = none → Bindings.lookup name bound = some c →
    ∃ d, (t.store.object r).members.find? name = some d ∧
      t.store.get d = (s.store.get c).ownedBy r

namespace State.Promoted

variable {r : ObjectRef} {name : String} {c : Cell} {rest : List (String × Cell)} {s t u : State}

theorem nil (r : ObjectRef) (s : State) : s.Promoted r [] s where
  kept := .of_eq rfl (Nat.le_refl _)
  locals := rfl
  get _ _ := rfl
  member h := h
  promoted _ _ _ h := by cases h

/-- A name that is no new one is passed over. -/
theorem skip (h : s.Promoted r rest t)
    (old : name = "this" ∨ (s.store.object r).members.contains name = true) :
    s.Promoted r ((name, c) :: rest) t where
  kept := h.kept
  locals := h.locals
  get := h.get
  member := h.member
  promoted {other d} hr ht hm hb := by
    have ne : name ≠ other := by
      rintro rfl
      rcases old with old | old
      · exact ht old
      · simp [Bindings.contains, hm] at old
    exact h.promoted hr ht hm (by simpa [Bindings.lookup, ne] using hb)

/-- The first name becomes a member `d`, and then the others are taken over. -/
theorem cons {d : Cell} (h : t.Promoted r rest u) (kept : s.KeepsStored t)
    (locals : t.locals = s.locals)
    (get : ∀ e : Cell, e.index < s.store.cells.size → t.store.get e = s.store.get e)
    (new : (s.store.object r).members.find? name = none)
    (inside : ∀ e ∈ rest, e.2.index < s.store.cells.size) (hd : d.index < t.store.cells.size)
    (value : t.store.get d = (s.store.get c).ownedBy r)
    (added : ∀ other, (t.store.object r).members.find? other =
      if name = other ∧ r.index < s.store.objects.size then some d
      else (s.store.object r).members.find? other) :
    s.Promoted r ((name, c) :: rest) u where
  kept := kept.trans h.kept
  locals := h.locals.trans locals
  get e he := (h.get e (Nat.lt_of_lt_of_le he kept.cells)).trans (get e he)
  member {other e} he := by
    refine h.member ?_
    have ne : name ≠ other := by
      rintro rfl
      rw [new] at he
      cases he
    rw [added, if_neg fun h => ne h.1, he]
  promoted {other e} hr ht hm hb := by
    by_cases same : name = other
    · subst same
      have found : Bindings.lookup name ((name, c) :: rest) = some c := by simp [Bindings.lookup]
      rw [found] at hb
      cases hb
      refine ⟨d, h.member (by rw [added, if_pos ⟨rfl, hr⟩]), ?_⟩
      rw [h.get d hd, value]
    · have later : Bindings.lookup other rest = some e := by
        simpa [Bindings.lookup, same] using hb
      have missing : (t.store.object r).members.find? other = none := by
        rw [added, if_neg fun h => same h.1, hm]
      rw [← get e (inside _ (Bindings.mem_of_lookup later))]
      exact h.promoted (Nat.lt_of_lt_of_le hr kept.objects) ht missing later

end State.Promoted

namespace Exec

/-- Promotion always completes. -/
theorem promote_ends (r : ObjectRef) (bound : List (String × Cell)) {s : State}
    (hb : ∀ e ∈ bound, e.2.index < s.store.cells.size) :
    (promote r bound).Ends s (fun _ t => s.Promoted r bound t) fun _ _ => False := by
  induction bound generalizing s with
  | nil => exact .nil r s
  | cons e rest ih =>
    obtain ⟨name, c⟩ := e
    have inside : ∀ e ∈ rest, e.2.index < s.store.cells.size :=
      fun e he => hb e (List.mem_cons_of_mem _ he)
    have hc : c.index < s.store.cells.size := hb (name, c) List.mem_cons_self
    unfold promote
    rw [ends_storage_bind]
    dsimp only
    split
    · next fresh =>
      simp only [Bool.and_eq_true, bne_iff_ne, ne_eq, Bool.not_eq_true', Bindings.contains,
        Option.isSome_eq_false_iff, Option.isNone_iff_eq_none] at fresh
      rw [ends_value_bind]
      split
      · next f hv =>
        let v : Value := .function f (some r)
        let t : State := { s with
          store := (s.store.alloc v).2.setMember r name ⟨s.store.cells.size⟩ }
        have larger : t.store.cells.size = s.store.cells.size + 1 := by
          simp [t, Store.setMember, Store.alloc]
        change (promote r rest).Ends t _ _
        refine (ih (s := t) fun e he => by have := inside e he; omega).mono
          (fun _ u hu => hu.cons (d := ⟨s.store.cells.size⟩) ?_ rfl ?_ fresh.2 inside ?_ ?_ ?_)
          fun _ _ h => h
        · let a : State := { s with store := (s.store.alloc v).2 }
          have grown : a.store.cells.size = s.store.cells.size + 1 := by simp [a, Store.alloc]
          have new : s.store.cells.size < a.store.cells.size := by omega
          exact (State.KeepsStored.of_eq (s := s) (t := a) rfl (Nat.le_of_lt new)).trans
            (.setMember (c := ⟨s.store.cells.size⟩) new)
        · exact fun e he => s.store.get_alloc_of_lt v e he
        · simp [larger]
        · rw [hv]
          exact s.store.get_alloc_self v
        · exact fun other => (s.store.alloc v).2.find?_setMember r name _ other
      · next other =>
        let t : State := { s with store := s.store.setMember r name c }
        change (promote r rest).Ends t _ _
        refine (ih (s := t) inside).mono (fun _ u hu =>
          hu.cons (d := c) (.setMember hc) rfl (fun _ _ => rfl) fresh.2 inside hc ?_ fun other =>
            s.store.find?_setMember r name c other) fun _ _ h => h
        change s.store.get c = _
        unfold Value.ownedBy
        split
        · next f hv => exact absurd hv (other f)
        · rfl
    · next old =>
      refine (ih inside).mono (fun _ u hu => hu.skip ?_) fun _ _ h => h
      by_cases this : name = "this"
      · exact .inl this
      · exact .inr (by simpa [this] using old)

/-! ## The scope of a realization -/

/-- The scope that a realization begins with binds the members of its object and the object. -/
theorem memberScope_ends (r : ObjectRef) {s : State} (hs : s.MembersStored) :
    (memberScope r).Ends s (fun scope t => scope.items.Stored t.store.cells.size)
      fun _ _ => False := by
  have added (n : Nat) (es : List (String × Cell)) (he : ∀ e ∈ es, e.2.index < n) (scope : Scope)
      (h : scope.items.Stored n) :
      (es.foldl (fun s e => s.add e.1 e.2) scope).items.Stored n := by
    induction es generalizing scope with
    | nil => exact h
    | cons e es ih =>
      exact ih (fun e he' => he e (List.mem_cons_of_mem _ he')) _
        (h.insert e.1 (he e List.mem_cons_self))
  let t : State := { s with store := (s.store.alloc (.object r)).2 }
  have grown : t.store.cells.size = s.store.cells.size + 1 := by simp [t, Store.alloc]
  have members : (t.store.object r).members.Stored t.store.cells.size :=
    hs.of_objects (t := t) rfl (by omega) r
  have this : Bindings.Stored (Bindings.empty.insert "this" ⟨s.store.cells.size⟩)
      t.store.cells.size :=
    Bindings.Stored.insert (fun e he => by cases he) "this" (by simp [grown])
  exact added t.store.cells.size _ members _ this

theorem innermostNames_eq (s : State) : innermostNames s = .ok s.innermost s := by
  obtain ⟨_, _, locals⟩ := s
  cases locals <;> rfl

/-- What a realization has bound in the end are cells of the storage. -/
theorem inRealization_ends {x : Exec Unit} (h : Inward .storing True x) (obj : Cell)
    {members : Scope} {s : State} (hs : s.MembersStored)
    (hm : members.items.Stored s.store.cells.size) :
    (inRealization obj members x).Ends s (fun bound t => bound.Stored t.store.cells.size)
      fun _ _ => True := by
  let u : State := { s.pushFunctionScope members with instants := obj :: s.instants }
  have pops : Along Layers.storing (fun _ => True) (popInstant >>= fun _ => popLocalScope) :=
    Along.popInstant.after fun _ => Along.popLocalScope
  have run : (x >>= fun _ => innermostNames).Ends u
      (fun bound t => t.MembersStored ∧ bound.Stored t.store.cells.size) fun _ _ => True := by
    refine Ends.bind ((h.both trivial u hs).mono (fun _ _ h => h.2) fun _ _ _ => trivial) ?_
    rintro _ t ⟨kept, gains⟩
    have stored : t.innermost.Stored t.store.cells.size := fun e he => by
      rcases gains e he with old | new
      · exact Nat.lt_of_lt_of_le (hm e old) kept.cells
      · exact new
    unfold Ends
    rw [innermostNames_eq]
    exact ⟨kept.members hs, stored⟩
  have finished {bound : Bindings Cell} {t : State} (ht : t.MembersStored)
      (hb : bound.Stored t.store.cells.size) : (popInstant >>= fun _ => popLocalScope).Ends t
        (fun _ v => bound.Stored v.store.cells.size) fun _ _ => True :=
    (pops t ht).mono (fun _ _ hv => hb.mono hv.2.cells) fun _ _ _ => trivial
  exact Ends.ensuring (run.mono (fun _ _ ht => finished ht.1 ht.2) fun _ t _ => ends_true _ t)

end Exec

/-! ## The logic -/

namespace Exec.Inward

variable {x : Exec Unit} (h : Inward .storing True x) (obj : Cell) (r : ObjectRef)

include h

/-- What the scope of a realization binds in the end are cells of the storage. -/
theorem names_ends {s : State} (hs : s.MembersStored) :
    (memberScope r >>= fun members => Exec.inRealization obj members x).Ends s
      (fun bound t => Layers.storing.steadily.Le s t ∧ bound.Stored t.store.cells.size)
      fun _ t => Layers.storing.steadily.Le s t := by
  let R := Layers.storing.steadily
  have scope := (Along.memberScope (R := R.toQuietOrder) r s hs).and (memberScope_ends r hs)
  refine Ends.bind (scope.mono (fun _ _ h => h) fun _ _ h => h.2.elim) ?_
  rintro members t ⟨⟨hm, ht⟩, inside⟩
  have body := (h.inRealization obj hm t (R.keeps hs ht)).and
    (inRealization_ends h obj (R.keeps hs ht) inside)
  exact body.mono (fun _ _ h => ⟨R.trans ht h.1.2, h.2⟩) fun _ _ h => R.trans ht h.1

/-- A realization gives its object nothing but cells of the storage. -/
theorem storing_fillObject : Layered .storing (fun _ => True) (fillObject obj r x) := by
  intro s hs
  let R := Layers.storing.steadily
  have phases : fillObject obj r x =
      (memberScope r >>= fun members => Exec.inRealization obj members x) >>= fun bound =>
        promote r bound.entries >>= fun _ => bindParent r := by
    simp only [fillObject, bind_assoc]
  rw [phases]
  refine Ends.bind (h.names_ends obj r hs) ?_
  rintro bound u ⟨hu, stored⟩
  have promoted := (promote_ends r bound.entries stored).and
    (((framingSteps Failure.passedOn_outOfFuel fun _ => False).promote r bound.entries).steady u
      trivial)
  refine Ends.bind (Q := fun _ v => R.Le s v) (promoted.mono (fun _ v hv => ?_)
    fun _ _ h => h.1.elim) fun _ v hv => ?_
  · exact R.trans hu ⟨⟨hv.1.kept, Layers.storing.level hv.1.kept hv.1.locals⟩, hv.2.2⟩
  · exact (Along.bindParent (R := R) trivial v (R.keeps hs hv)).mono
      (fun _ _ h => ⟨trivial, R.trans hv h.2⟩) fun _ _ h => R.trans hv h

end Exec.Inward

/-- Storing members and names is a logic of all programs. -/
def storing : NodeLogic (.declaring True) :=
  Layers.storing.logic
    (fun _ name => Layered.of_framed (outlasting.declareGlobal name) (.update fun s =>
      ⟨Layers.storing.shared (s.sameShared_mapTop _),
        .mapTop s fun a => a.items_declareGlobal name⟩))
    fun obj r _ h => h.storing_fillObject obj r

/-- The functions of a host leave the scopes steady and bind members and names to cells of the
storage. -/
structure Host.Stores (host : Host) : Prop where
  steady : Host.Steady (fun _ => False) host
  stored (name : String) (s : State) : s.MembersStored →
    s.KeepsStored (finalState (host name s)) ∧ s.GainsStored (finalState (host name s))

theorem Host.Stores.layered {host : Host} (h : host.Stores) (name : String) :
    Layered .storing (fun _ => True) (host name) :=
  Layered.of_framed (h.steady.framed name) fun s hs =>
    (Exec.ends_of_final (h.stored name s hs)).mono (fun _ _ ht => ⟨trivial, ht⟩) fun _ _ ht => ht

/-- The interpreter binds members and names to cells of the storage, whatever it runs. -/
theorem storing_withFuel {host : Host} (hh : host.Stores) (n : Nat) :
    storing.AgreeOn .any (Interp.withFuel host n) (Interp.withFuel host n) := by
  have full : (Fragment.declaring True).Full :=
    ⟨fun _ => trivial, trivial, trivial, trivial, trivial⟩
  refine NodeLogic.agreeOn_withFuel (L := storing) trivial trivial
    (fun _ => full.exprParts fun _ _ _ => trivial) (fun {inLoop st} _ => full.stmtParts inLoop st)
    (Along.read fun _ => trivial) (fun h _ => Along.runAll (fun st => @h st trivial) _)
    (fun n on f owner args line _ => ?_) n
  exact Layered.inCall (on.runCallable line trivial (fun name _ _ => hh.layered name)
    fun _ body _ _ => ⟨full.declaresAll body, fun _ _ => trivial⟩) _ owner args line

end CellScript
