import CellScript.Proofs.Binding.Declared

/-!
# Functions that hide a global declaration

A name that a scope declares as global is not found in the scopes of the current call, and a new one
is bound in a global scope. Assignments heed this. The functions that a block defines are bound in
the scope of the block when it is entered, whether or not an enclosing scope has declared their
names: there the two readings of the declaration come apart, and the name is said to be global and
is found locally.

* `State.ReadsGlobals`: both readings agree, for every name;
* `State.Hoists`: what the declarations of a list do in the scope that has been opened for it;
* `State.overrides`: a block defines a function whose name is declared as global around it and is
  not bound globally;
* `State.readsGlobals_iff_overrides`: where the declarations of a block complete, the readings agree
  exactly if the block does not do this.
-/

namespace CellScript

/-! ## The two readings -/

/-- A name that the current call declares as global is not found in its scopes: it is looked for
among the global names, and made there. -/
structure State.ReadsGlobals (s : State) : Prop where
  hidden (name : String) : s.isDeclaredGlobal name = true → s.findLocal? name = none
  found (name : String) : s.isDeclaredGlobal name = true → s.find? name = s.findGlobal? name
  made (name : String) (c : Cell) (line : Option Nat) : s.isDeclaredGlobal name = true →
    Exec.addName name c line s = Exec.addGlobal name c line s

namespace State

variable {s t : State}

theorem ReadsGlobals.of_hidden
    (h : ∀ name, s.isDeclaredGlobal name = true → s.findLocal? name = none) : s.ReadsGlobals where
  hidden := h
  found name hn := by rw [find?, h name hn]
  made name c line hn := by
    unfold Exec.addName
    rw [Exec.get_bind_apply, if_neg (by simp [hn])]

/-- Only the local scopes matter. -/
theorem ReadsGlobals.congr (h : s.ReadsGlobals) (hl : t.locals = s.locals) : t.ReadsGlobals := by
  refine .of_hidden fun name hn => ?_
  rw [isDeclaredGlobal, chain, hl] at hn
  rw [findLocal?, chain, hl]
  exact h.hidden name hn

/-- Where nothing is declared, there is nothing to heed. -/
theorem ReadsGlobals.of_undeclared (h : ∀ name, s.isDeclaredGlobal name = false) :
    s.ReadsGlobals :=
  .of_hidden fun name hn => by simp [h name] at hn

end State

/-! ## What declarations bind -/

/-- A list of statements, files that are included in it among them, defines a function of the given
name. -/
def Stmt.hoists (ss : List Stmt) (name : String) : Bool :=
  (Stmt.splicedAll ss).any fun
    | .function f => f.name == name
    | _ => false

theorem Stmt.hoists_cons (st : Stmt) (ss : List Stmt) (name : String) :
    Stmt.hoists (st :: ss) name = (Stmt.hoists [st] name || Stmt.hoists ss name) := by
  simp [hoists, splicedAll]

/-- The second scope is the first one with more names, each of which has the property. -/
structure Scope.Gains (new : String → Prop) (a b : Scope) : Prop where
  kept (name : String) : a.has name = true → b.has name = true
  gained (name : String) : b.has name = true → a.has name = true ∨ new name
  globalNames : b.globalNames = a.globalNames

/-- What the declarations of a list lead to in a scope that has just been opened. They bind
functions there whose names were not found, and afterwards these are found. -/
structure State.Hoists (ss : List Stmt) (s t : State) : Prop where
  globals (name : String) : t.findGlobal? name = s.findGlobal? name
  locals : ∃ f a below, s.locals = f :: below ∧ t.locals = { f with scope := a } :: below ∧
    f.scope.Gains (fun name => Stmt.hoists ss name = true ∧ s.findGlobal? name = none) a
  found (name : String) : Stmt.hoists ss name = true → (t.find? name).isSome = true

theorem Scope.findIn_isSome_of_bare {name : String} {a : Scope} {outer : List Scope}
    (h : a.globalNames = []) :
    (findIn name (a :: outer)).isSome = (a.has name || (findIn name outer).isSome) := by
  rw [findIn, h, has, Bindings.contains]
  cases a.items.find? name <;> rfl

namespace State

variable {s t u : State} {ss rest : List Stmt}

namespace Hoists

theorem opened (h : s.Hoists ss t) (hs : s.Opened) : t.Opened := by
  obtain ⟨f, a, below, hl, hl', gains⟩ := h.locals
  obtain ⟨top, below', same, bare⟩ := hs
  obtain ⟨rfl, rfl⟩ := List.cons.inj (hl.symm.trans same)
  exact ⟨_, _, hl', gains.globalNames.trans bare⟩

/-- The same names are declared as global. -/
theorem isDeclaredGlobal (h : s.Hoists ss t) (name : String) :
    t.isDeclaredGlobal name = s.isDeclaredGlobal name := by
  obtain ⟨f, a, below, hl, hl', gains⟩ := h.locals
  simp [State.isDeclaredGlobal, chain, hl, hl', chainOf, Scope.declaredGlobal, gains.globalNames]

/-- What has been found is found. -/
theorem find?_isSome (h : s.Hoists ss t) (hs : s.Opened) {name : String}
    (hn : (s.find? name).isSome = true) : (t.find? name).isSome = true := by
  obtain ⟨f, a, below, hl, hl', gains⟩ := h.locals
  obtain ⟨top, below', same, bare⟩ := hs
  obtain ⟨rfl, rfl⟩ := List.cons.inj (hl.symm.trans same)
  rw [State.find?_isSome, findLocal?, chain, hl, chainOf, Scope.findIn_isSome_of_bare bare] at hn
  rw [State.find?_isSome, findLocal?, chain, hl', chainOf,
    Scope.findIn_isSome_of_bare (gains.globalNames.trans bare), h.globals]
  rw [Bool.or_eq_true, Bool.or_eq_true] at hn ⊢
  exact hn.imp_left (Or.imp_left (gains.kept name))

theorem trans (h : s.Hoists ss t) (h' : t.Hoists rest u) (ht : t.Opened)
    {all : List Stmt} (hall : ∀ name, Stmt.hoists all name = (Stmt.hoists ss name ||
      Stmt.hoists rest name)) : s.Hoists all u where
  globals name := (h'.globals name).trans (h.globals name)
  locals := by
    obtain ⟨f, a, below, hl, hl', gains⟩ := h.locals
    obtain ⟨g, b, below', same, hl'', gains'⟩ := h'.locals
    obtain ⟨rfl, rfl⟩ := List.cons.inj (hl'.symm.trans same)
    refine ⟨f, b, below, hl, hl'', fun name hn => gains'.kept name (gains.kept name hn),
      fun name hn => ?_, gains'.globalNames.trans gains.globalNames⟩
    simp only [hall, Bool.or_eq_true]
    rcases gains'.gained name hn with hn | ⟨hn, missing⟩
    · exact (gains.gained name hn).imp_right fun hn => ⟨.inl hn.1, hn.2⟩
    · exact .inr ⟨.inr hn, h.globals name ▸ missing⟩
  found name hn := by
    rw [hall, Bool.or_eq_true] at hn
    exact hn.elim (fun hn => h'.find?_isSome ht (h.found name hn)) (h'.found name)

/-- A change of what no name is looked for in. -/
theorem of_eq (hs : s.Opened) (hl : t.locals = s.locals)
    (hg : ∀ name, t.findGlobal? name = s.findGlobal? name)
    (found : ∀ name, Stmt.hoists ss name = true → (s.find? name).isSome = true) :
    s.Hoists ss t where
  globals := hg
  locals := by
    obtain ⟨f, below, same, -⟩ := hs
    exact ⟨f, f.scope, below, same, hl.trans same, fun _ h => h, fun _ => .inl, rfl⟩
  found name hn := by
    rw [State.find?_isSome, findLocal?, chain, hl, hg]
    rw [← chain, ← findLocal?, ← State.find?_isSome]
    exact found name hn

end Hoists

end State

namespace Exec

theorem declareFunction_hoists (f : FunctionDef Stmt) {s : State} (hs : s.Opened) :
    (declareFunction f).Ends s (fun _ t => s.Hoists [.function f] t) fun _ _ => True := by
  have hoists (name : String) : Stmt.hoists [.function f] name = (f.name == name) := by
    simp [Stmt.hoists, Stmt.splicedAll, Stmt.spliced]
  refine .declareFunction (fun c _ _ hf _ _ => ?_) trivial (fun _ empty => ?_) fun hf _ => ?_
  · refine .of_eq hs rfl (fun _ => rfl) fun name hn => ?_
    rw [hoists, beq_iff_eq] at hn
    rw [← hn, hf]
    rfl
  · exact absurd empty hs.ne_nil
  · obtain ⟨top, below, hl, bare⟩ := hs
    let u : State := { s with store := (s.store.alloc f.toValue).2 }
    have missing : s.findGlobal? f.name = none := by
      have nowhere := s.find?_isSome f.name
      rw [hf, Option.isSome_none, eq_comm, Bool.or_eq_false_iff] at nowhere
      simpa using nowhere.2
    let a := top.scope.add f.name (s.store.alloc f.toValue).1
    have barer : a.globalNames = [] := bare
    have bound : (u.mapTop (·.add f.name (s.store.alloc f.toValue).1)).locals =
        { top with scope := a } :: below := by
      simp [State.mapTop, u, hl, a]
    have globals (name : String) :
        (u.mapTop (·.add f.name (s.store.alloc f.toValue).1)).findGlobal? name =
          s.findGlobal? name := by
      rw [State.findGlobal?, State.globals_mapTop]
      rfl
    refine .addLocal (fun _ => ⟨globals, ⟨top, a, below, hl, bound, fun name hn => ?_,
      fun name hn => ?_, rfl⟩, fun name hn => ?_⟩) fun _ => trivial
    · rw [Scope.has_add, hn, Bool.or_true]
    · rw [Scope.has_add, Bool.or_eq_true, beq_iff_eq] at hn
      refine hn.symm.imp_right ?_
      rintro rfl
      exact ⟨by rw [hoists, beq_self_eq_true], missing⟩
    · rw [hoists] at hn
      rw [State.find?_isSome, State.findLocal?, State.chain, bound, State.chainOf,
        Scope.findIn_isSome_of_bare barer, Scope.has_add, hn]
      rfl

theorem addType_hoists (name : String) (t : ObjectType) (line : Option Nat) {s : State}
    (hs : s.Opened) {st : Stmt} (hst : ∀ name, Stmt.hoists [st] name = false) :
    (addType name t line).Ends s (fun _ u => s.Hoists [st] u) fun _ _ => True := by
  have none (other : String) (h : Stmt.hoists [st] other = true) :
      (s.find? other).isSome = true := by simp [hst] at h
  refine .addType (fun _ _ _ => ?_) (fun top below hg _ => ?_) trivial fun _ => trivial
  · exact .of_eq hs rfl (fun _ => rfl) none
  · refine .of_eq hs rfl (fun other => ?_) none
    simp only [State.findGlobal?, hg, State.findGlobalIn]

mutual

theorem prepare_hoists : ∀ (st : Stmt) {s : State}, s.Opened →
    (prepare st).Ends s (fun _ t => s.Hoists [st] t) fun _ _ => True
  | .function f, s, hs => by
    unfold prepare
    exact declareFunction_hoists f hs
  | .classDef isInstant name methods id line, s, hs => by
    unfold prepare
    exact addType_hoists name _ _ hs fun _ => by simp [Stmt.hoists, Stmt.splicedAll, Stmt.spliced]
  | .include path body line, s, hs => by
    unfold prepare
    have same : Stmt.hoists [.include path body line] = Stmt.hoists body := by
      funext name
      simp [Stmt.hoists, Stmt.splicedAll, Stmt.spliced]
    refine (prepareAll_hoists body hs).mono (fun _ t h => ?_) fun _ _ _ => trivial
    exact ⟨h.globals, same ▸ h.locals, same ▸ h.found⟩
  | .expression _, s, hs | .assign _ _ _, s, hs | .update _ _ _ _, s, hs | .realize _ _ _, s, hs
  | .nop _, s, hs | .block _ _, s, hs | .branch _ _ _ _, s, hs | .loop _ _, s, hs
  | .whileLoop _ _ _, s, hs | .doWhile _ _ _, s, hs | .forLoop _ _ _ _ _, s, hs | .break _, s, hs
  | .continue _, s, hs | .return _ _, s, hs | .global _ _, s, hs => by
    unfold prepare
    exact .of_eq hs rfl (fun _ => rfl) fun name hn => by
      simp [Stmt.hoists, Stmt.splicedAll, Stmt.spliced] at hn

theorem prepareAll_hoists : ∀ (ss : List Stmt) {s : State}, s.Opened →
    (prepareAll ss).Ends s (fun _ t => s.Hoists ss t) fun _ _ => True
  | [], s, hs => by
    unfold prepareAll
    exact .of_eq hs rfl (fun _ => rfl) fun name hn => by simp [Stmt.hoists, Stmt.splicedAll] at hn
  | st :: ss, s, hs => by
    unfold prepareAll
    refine Ends.bind (prepare_hoists st hs) fun _ t begun => ?_
    refine (prepareAll_hoists ss (begun.opened hs)).mono ?_ fun _ _ _ => trivial
    exact fun _ u rest => begun.trans rest (begun.opened hs) (Stmt.hoists_cons st ss)

end

end Exec

/-! ## Blocks -/

/-- A block defines a function whose name is declared as global around it, and bound nowhere among
the global names, and its declarations complete. -/
def State.overrides (s : State) (body : List Stmt) : Bool :=
  (Exec.result? (Exec.prepareAll body (s.pushBlockScope .empty))).isSome &&
    (Stmt.splicedAll body).any fun
      | .function f => s.isDeclaredGlobal f.name && (s.findGlobal? f.name).isNone
      | _ => false

theorem Stmt.hoists_iff {ss : List Stmt} {name : String} :
    Stmt.hoists ss name = true ↔ ∃ f, .function f ∈ Stmt.splicedAll ss ∧ f.name = name := by
  rw [hoists, List.any_eq_true]
  constructor
  · rintro ⟨st, mem, same⟩
    cases st with
    | function f => exact ⟨f, mem, beq_iff_eq.1 same⟩
    | _ => cases same
  · rintro ⟨f, mem, rfl⟩
    exact ⟨_, mem, beq_self_eq_true _⟩

namespace State

variable {s t : State} {body : List Stmt}

theorem overrides_iff (h : Exec.prepareAll body (s.pushBlockScope .empty) = .ok () t) :
    s.overrides body = true ↔ ∃ name, Stmt.hoists body name = true ∧
      s.isDeclaredGlobal name = true ∧ s.findGlobal? name = none := by
  have completes :
      (Exec.result? (Exec.prepareAll body (s.pushBlockScope .empty))).isSome = true := by
    rw [h]
    rfl
  rw [overrides, completes, Bool.true_and, List.any_eq_true]
  constructor
  · rintro ⟨st, mem, declared⟩
    cases st with
    | function f =>
      rw [Bool.and_eq_true, Option.isNone_iff_eq_none] at declared
      exact ⟨f.name, Stmt.hoists_iff.2 ⟨f, mem, rfl⟩, declared⟩
    | _ => cases declared
  · rintro ⟨name, hoisted, declared, missing⟩
    obtain ⟨f, mem, rfl⟩ := Stmt.hoists_iff.1 hoisted
    exact ⟨_, mem, by rw [Bool.and_eq_true, Option.isNone_iff_eq_none]; exact ⟨declared, missing⟩⟩

/-- Where the declarations of a block complete, both readings still agree exactly if the block
overrides no declaration. -/
theorem readsGlobals_iff_overrides (hs : s.ReadsGlobals)
    (h : Exec.prepareAll body (s.pushBlockScope .empty) = .ok () t) :
    t.ReadsGlobals ↔ s.overrides body = false := by
  have hoists := (Exec.prepareAll_hoists body s.opened_block).ok h
  have declared (name : String) : t.isDeclaredGlobal name = s.isDeclaredGlobal name :=
    hoists.isDeclaredGlobal name
  have globals (name : String) : t.findGlobal? name = s.findGlobal? name := hoists.globals name
  rw [← Bool.not_eq_true, overrides_iff h]
  constructor
  · rintro reads ⟨name, hoisted, here, missing⟩
    have found := hoists.found name hoisted
    rw [reads.found name ((declared name).trans here), globals, missing] at found
    cases found
  · intro never
    refine .of_hidden fun name here => ?_
    rw [declared] at here
    obtain ⟨f, a, below, hl, hl', gains⟩ := hoists.locals
    obtain ⟨rfl, rfl⟩ := List.cons.inj hl
    have free : a.has name = false := by
      refine Bool.eq_false_iff.2 fun bound => ?_
      rcases gains.gained name bound with bound | ⟨hoisted, missing⟩
      · cases bound
      · exact never ⟨name, hoisted, here, missing⟩
    have bare : a.globalNames = [] := gains.globalNames
    have inner : (Scope.findIn name (a :: s.chain)).isSome = (s.findLocal? name).isSome := by
      rw [Scope.findIn_isSome_of_bare bare, free, Bool.false_or]
      rfl
    rw [hs.hidden name here, Option.isSome_none] at inner
    rw [findLocal?, chain, hl']
    exact Option.isNone_iff_eq_none.1 (Option.isSome_eq_false_iff.1 inner)

end State

end CellScript
