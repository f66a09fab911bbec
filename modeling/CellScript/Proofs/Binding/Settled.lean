import CellScript.Proofs.Binding.Declared

/-!
# Declaring again changes nothing

A list of statements is declared when it is entered, and a script that is run again, or a function
that is called again, declares the same definitions again. A definition is known by its name: a
function if the name is found and bound to this very function, a type if it is registered for the
name. Declaring what is known changes nothing, so all depends on every definition of a list being
known when the declarations of the list have completed.

* `State.Knows`, `State.Remembers`: what is known, and what stays so;
* `Exec.prepare_learns`, `Exec.prepareAll_learns`: one declaration makes its definition known and
  forgets none, and so do the declarations of a list, by induction on it;
* `Exec.prepareAll_settled`: after the declarations of a list, they are settled;
* `Interp.preparing`: the interpreter that declares lists by another step;
* `preparation_settled`: looking for declarations that are not settled, wherever lists are declared
  in a run, finds none.
-/

namespace CellScript

/-! ## What is known -/

/-- The definition that a statement makes has been declared: its name leads to it. -/
def State.Knows (s : State) : Stmt → Prop
  | .function f => ∃ c g owner, s.find? f.name = some c ∧ s.store.get c = .function g owner ∧
      g.definition? = some f.id
  | .classDef _ name _ id _ => ∃ t, s.findType? name = some t ∧ t.definition = some id
  | _ => True

/-- Names that are found, functions in cells and registered types are so in the second state,
too. -/
structure State.Remembers (s t : State) : Prop where
  names {name : String} {c : Cell} : s.find? name = some c → t.find? name = some c
  functions {c : Cell} {f : Callable} {owner : Option ObjectRef} :
    s.store.get c = .function f owner → t.store.get c = .function f owner
  types {name : String} {type : ObjectType} : s.findType? name = some type →
    t.findType? name = some type

/-- Statements that stand for themselves: all but included files. -/
def Stmt.Plain (st : Stmt) : Prop := ∀ path body line, st ≠ .include path body line

namespace State

variable {s t u : State}

theorem Remembers.refl (s : State) : s.Remembers s := ⟨id, id, id⟩

theorem Remembers.trans (h : s.Remembers t) (h' : t.Remembers u) : s.Remembers u :=
  ⟨h'.names ∘ h.names, h'.functions ∘ h.functions, h'.types ∘ h.types⟩

theorem Remembers.knows (h : s.Remembers t) {st : Stmt} (hs : s.Knows st) : t.Knows st := by
  cases st with
  | function f =>
    obtain ⟨c, g, owner, hf, hv, hg⟩ := hs
    exact ⟨c, g, owner, h.names hf, h.functions hv, hg⟩
  | classDef isInstant name methods id line =>
    obtain ⟨type, hf, ht⟩ := hs
    exact ⟨type, h.types hf, ht⟩
  | _ => trivial

/-- A new cell is no function's cell before. -/
theorem remembers_alloc (s : State) (v : Value) :
    s.Remembers { s with store := (s.store.alloc v).2 } := by
  refine ⟨id, fun {c f owner} hc => ?_, id⟩
  rcases Nat.lt_or_ge c.index s.store.cells.size with hlt | hge
  · exact (s.store.get_alloc_of_lt v c hlt).trans hc
  · have missing : s.store.get c = .undefined := by simp [Store.get, hge]
    rw [missing] at hc
    cases hc

/-- A name that was not found has been bound in one of these ways. -/
theorem remembers_of_find? {name : String} {c : Cell} (hnone : s.find? name = none)
    (hfind : ∀ other, t.find? other = if name = other then some c else s.find? other)
    (hstore : t.store = s.store) (hglobals : ∀ other, t.findType? other = s.findType? other) :
    s.Remembers t := by
  refine ⟨fun {other d} h => ?_, fun h => hstore ▸ h, fun h => (hglobals _).trans h⟩
  have hne : name ≠ other := by
    rintro rfl
    rw [hnone] at h
    cases h
  rw [hfind, if_neg hne, h]

end State

namespace Exec

variable {s t : State}

/-! ## One declaration -/

/-- Declaring what is known changes nothing. -/
theorem prepare_of_knows {st : Stmt} (hst : st.Plain) (h : s.Knows st) :
    prepare st s = .ok () s := by
  cases st with
  | function f =>
    obtain ⟨c, g, owner, hf, hv, hg⟩ := h
    change declareFunction f s = _
    unfold declareFunction
    rw [find?_bind_apply, hf]
    dsimp only
    rw [value_bind_apply, hv]
    simp only [hg, beq_self_eq_true, if_true]
    rfl
  | classDef isInstant name methods id line =>
    obtain ⟨type, hf, ht⟩ := h
    change addType name (typeOf isInstant name methods id) (some line) s = _
    unfold addType
    rw [get_bind_apply, hf]
    simp only [ht, typeOf, Option.isSome_some, beq_self_eq_true, Bool.and_self, if_true]
    rfl
  | «include» path body line => exact absurd rfl (hst path body line)
  | _ => rfl

/-- A function that is declared is known, and nothing is forgotten. -/
theorem declareFunction_learns (f : FunctionDef Stmt) (hs : s.Bare)
    (h : declareFunction f s = .ok () t) : s.Remembers t ∧ t.Knows (.function f) := by
  let u : State := { s with store := (s.store.alloc f.toValue).2 }
  let c : Cell := (s.store.alloc f.toValue).1
  have known (hf : s.find? f.name = none) (t : State)
      (hfind : ∀ other, t.find? other = if f.name = other then some c else u.find? other)
      (hstore : t.store = u.store) (htypes : ∀ other, t.findType? other = u.findType? other) :
      s.Remembers t ∧ t.Knows (.function f) := by
    refine ⟨(s.remembers_alloc _).trans (State.remembers_of_find? hf hfind hstore htypes), ?_⟩
    refine ⟨c, .script f.parameters f.body f.id, none, ?_, ?_, rfl⟩
    · rw [hfind, if_pos rfl]
    · rw [hstore]
      exact s.store.get_alloc_self _
  have learnt : (declareFunction f).Ends s (fun _ t => s.Remembers t ∧ t.Knows (.function f))
      fun _ _ => True := by
    refine .declareFunction (fun c g owner hf hv hg => ?_) trivial (fun hf hl => ?_) fun hf hl => ?_
    · exact ⟨.refl s, c, g, owner, hf, hv, hg⟩
    · refine .addGlobal (fun top below hg _ => ?_) fun _ _ => trivial
      have same : s.globals = top :: below := hg
      refine known hf _ (fun other => State.find?_add_global hl hg f.name other c) rfl
        fun other => ?_
      simp only [State.findType?, same, State.findTypeIn, Scope.add, u]
    · obtain ⟨top, below, hl, hnone⟩ := hs.resolve_left hl
      refine .addLocal (fun _ => ?_) fun _ => trivial
      refine known hf _ (fun other => State.find?_mapTop_add (s := u) hl hnone f.name other c)
        (State.store_mapTop u _) fun other => ?_
      rw [State.findType?, State.globals_mapTop]
      rfl
  exact learnt.ok h

/-- A type that is declared is known, and nothing is forgotten. -/
theorem addType_learns {name : String} {type : ObjectType} {line : Option Nat}
    (h : addType name type line s = .ok () t) :
    s.Remembers t ∧
      ∃ known, t.findType? name = some known ∧ known.definition = type.definition := by
  have learnt : (addType name type line).Ends s (fun _ t => s.Remembers t ∧
      ∃ known, t.findType? name = some known ∧ known.definition = type.definition)
      fun _ _ => True := by
    refine .addType (fun old hf same => ?_) (fun top below hg hf => ?_) trivial fun _ => trivial
    · exact ⟨.refl s, old, hf, same⟩
    · have found (other : String) :
          State.findType? { s with globals := { top with types := top.types.insert name type } ::
            below } other = if name = other then some type else s.findType? other := by
        simp only [State.findType?, hg, State.findTypeIn, Bindings.find?_insert]
        by_cases h : name = other <;> simp [h]
      refine ⟨⟨fun hn => ?_, id, fun {other t} ht => ?_⟩, type, ?_, rfl⟩
      · simp only [State.find?, State.findLocal?, State.chain, State.findGlobal?, hg,
          State.findGlobalIn] at hn ⊢
        exact hn
      · have hne : name ≠ other := by
          rintro rfl
          rw [hf] at ht
          cases ht
        rw [found, if_neg hne, ht]
      · rw [found, if_pos rfl]
  exact learnt.ok h

theorem bare_of_prepare {st : Stmt} (hs : s.Bare) (h : prepare st s = .ok () t) : t.Bare := by
  have one : prepareAll [st] s = .ok () t := by
    unfold prepareAll
    rw [bind_of_ok h]
    rfl
  exact ((prepareAll_ends [st] hs).ok one).bare hs

/-- One declaration makes its definition known and forgets none. -/
theorem prepare_learns {st : Stmt} (hst : st.Plain) (hs : s.Bare) (h : prepare st s = .ok () t) :
    s.Remembers t ∧ t.Knows st := by
  cases st with
  | function f => exact declareFunction_learns f hs h
  | classDef isInstant name methods id line =>
    obtain ⟨kept, known⟩ := addType_learns h
    exact ⟨kept, known⟩
  | «include» path body line => exact absurd rfl (hst path body line)
  | _ =>
    cases h
    exact ⟨.refl s, trivial⟩

/-! ## Lists -/

theorem prepareAll_append (as bs : List Stmt) :
    prepareAll (as ++ bs) = prepareAll as >>= fun _ => prepareAll bs := by
  induction as with
  | nil => simp [prepareAll]
  | cons a as ih => simp [prepareAll, ih]

mutual

theorem prepareAll_spliced : ∀ st : Stmt, prepareAll st.spliced = prepare st
  | .include _ body _ => by
    rw [Stmt.spliced, prepare]
    exact prepareAll_splicedAll body
  | .function _ | .classDef _ _ _ _ _ | .expression _ | .assign _ _ _ | .update _ _ _ _
  | .realize _ _ _ | .nop _ | .block _ _ | .branch _ _ _ _ | .loop _ _ | .whileLoop _ _ _
  | .doWhile _ _ _ | .forLoop _ _ _ _ _ | .break _ | .continue _ | .return _ _ | .global _ _ => by
    unfold Stmt.spliced
    simp [prepareAll]

/-- Included files declare what their statements would declare in their places. -/
theorem prepareAll_splicedAll : ∀ ss : List Stmt, prepareAll (Stmt.splicedAll ss) = prepareAll ss
  | [] => rfl
  | st :: ss => by
    rw [Stmt.splicedAll, prepareAll_append, prepareAll_spliced st, prepareAll_splicedAll ss]
    rfl

end

mutual

theorem plain_of_mem_spliced : ∀ (st : Stmt), ∀ d ∈ st.spliced, d.Plain
  | .include _ body _ => by
    rw [Stmt.spliced]
    exact plain_of_mem_splicedAll body
  | .function _ | .classDef _ _ _ _ _ | .expression _ | .assign _ _ _ | .update _ _ _ _
  | .realize _ _ _ | .nop _ | .block _ _ | .branch _ _ _ _ | .loop _ _ | .whileLoop _ _ _
  | .doWhile _ _ _ | .forLoop _ _ _ _ _ | .break _ | .continue _ | .return _ _ | .global _ _ => by
    unfold Stmt.spliced
    exact List.forall_mem_singleton.mpr nofun

theorem plain_of_mem_splicedAll : ∀ (ss : List Stmt), ∀ d ∈ Stmt.splicedAll ss, d.Plain
  | [] => by simp [Stmt.splicedAll]
  | st :: ss => by
    intro d hd
    rw [Stmt.splicedAll, List.mem_append] at hd
    exact hd.elim (plain_of_mem_spliced st d) (plain_of_mem_splicedAll ss d)

end

/-- The declarations of a list make all its definitions known and forget none. -/
theorem prepareAll_learns {ss : List Stmt} (hss : ∀ st ∈ ss, st.Plain) (hs : s.Bare)
    (h : prepareAll ss s = .ok () t) : s.Remembers t ∧ ∀ st ∈ ss, t.Knows st := by
  induction ss generalizing s with
  | nil =>
    cases h
    exact ⟨.refl _, nofun⟩
  | cons st ss ih =>
    obtain ⟨plain, rest⟩ := List.forall_mem_cons.mp hss
    unfold prepareAll at h
    cases hfirst : prepare st s with
    | error f u =>
      rw [bind_of_error hfirst] at h
      cases h
    | ok _ u =>
      rw [bind_of_ok hfirst] at h
      obtain ⟨begun, known⟩ := prepare_learns plain hs hfirst
      obtain ⟨later, all⟩ := ih rest (bare_of_prepare hs hfirst) h
      exact ⟨begun.trans later, List.forall_mem_cons.mpr ⟨later.knows known, all⟩⟩

theorem prepareAll_of_knows {ss : List Stmt} (h : ∀ st ∈ ss, st.Plain ∧ s.Knows st) :
    prepareAll ss s = .ok () s := by
  induction ss with
  | nil => rfl
  | cons st ss ih =>
    obtain ⟨⟨plain, known⟩, rest⟩ := List.forall_mem_cons.mp h
    unfold prepareAll
    rw [bind_of_ok (prepare_of_knows plain known)]
    exact ih rest

/-- Declaring a list of statements again, right after its declarations have completed, completes and
leaves the whole state as it is. -/
theorem prepareAll_settled {ss : List Stmt} (hs : s.Bare) (h : prepareAll ss s = .ok () t) :
    prepareAll ss t = .ok () t := by
  rw [← prepareAll_splicedAll] at h ⊢
  have plain := plain_of_mem_splicedAll ss
  have known := (prepareAll_learns plain hs h).2
  exact prepareAll_of_knows fun st hst => ⟨plain st hst, known st hst⟩

end Exec

/-! ## Declaring lists in another way -/

namespace Exec

section

variable (prep : List Stmt → Exec Unit)

/-- Realize an object, with the definitions of its body declared by `prep`. -/
def realizeBy (self : Interp) (typeName : String) (body : List Stmt) (line : Nat) : Exec Unit := do
  match ← findType? typeName with
  | none => fail (.unknownType typeName) (some line)
  | some t =>
    let r ← makeObject t
    let obj ← newCell (.object r)
    callIfMethod self obj typeName line
    fillObject obj r do
      prep body
      self.run body
    callIfMethod self obj "realize" line
    addAnonymous obj

/-- Run a statement, with the definitions of the list that it enters declared by `prep`. -/
def executeBy (limit : Nat) (self : Interp) : Stmt → Exec Unit
  | .block body _ => inBlock do
    prep body
    self.run body
  | .realize typeName body line => realizeBy prep self typeName body line
  | st => executeWith limit self st

/-- Run what a function does, with the definitions of a script function's body declared by
`prep`. -/
def runCallableBy (host : Host) (self : Interp) (f : Callable) (line : Option Nat) : Exec Cell :=
  match f with
  | .script _ body _ => takeResult do
    prep body
    self.run body
  | f => runCallable host self f line

/-- Run a script, with its definitions declared by `prep`. -/
def runScriptBy (interp : Interp) (script : Script) : Exec Cell := do
  beginScript
  mapFailure (overrun none) <| withFrames do
    prep script.statements
    interp.run script.statements
  endScript

end

end Exec

/-- The interpreter with the given fuel that declares the definitions of every list by `prep`. -/
def Interp.preparing (prep : List Stmt → Exec Unit) (host : Host) : (fuel : Nat) → Interp
  | 0 => Interp.withFuel host 0
  | n + 1 =>
    let self := preparing prep host n
    let execute := Exec.executeBy prep n self
    { evaluate := Exec.evaluateWith self
      execute
      run := Exec.runAll execute
      invoke := fun f owner args line =>
        Exec.inCall f.parameters owner args line (Exec.runCallableBy prep host self f line)
      text := Exec.textWith n self }

section

variable {prep : List Stmt → Exec Unit}
  (hprep : ∀ (ss : List Stmt) (s : State), s.Bare → prep ss s = Exec.prepareAll ss s)

include hprep

theorem Exec.preparedBy (self : Interp) (body : List Stmt) {s : State} (hs : s.Bare) :
    (prep body >>= fun _ => self.run body) s = (prepareAll body >>= fun _ => self.run body) s :=
  bind_congr_left (hprep body s hs) _

/-- Lists are declared where a scope has just been opened, or outside of all local scopes, and only
what `prep` does there matters. -/
theorem Interp.preparing_eq (host : Host) (fuel : Nat) :
    Interp.preparing prep host fuel = Interp.withFuel host fuel := by
  induction fuel with
  | zero => rfl
  | succ n ih =>
    have executes : Exec.executeBy prep n (Interp.withFuel host n) =
        Exec.executeWith n (Interp.withFuel host n) := by
      funext st
      cases st with
      | block body line =>
        funext s
        exact Exec.inBlock_congr (Exec.preparedBy hprep _ body (.inr s.opened_block))
      | realize typeName body line =>
        have filled (obj : Cell) (r : ObjectRef) := Exec.fillObject_congr (fun s hs =>
          Exec.preparedBy hprep (Interp.withFuel host n) body (.inr hs)) obj r
        change Exec.realizeBy prep _ typeName body line =
          Exec.realizeBy Exec.prepareAll _ typeName body line
        unfold Exec.realizeBy
        simp only [filled]
      | _ => rfl
    have invokes (f : Callable) (owner : Option ObjectRef) (args : List Cell)
        (line : Option Nat) :
        Exec.inCall f.parameters owner args line
            (Exec.runCallableBy prep host (Interp.withFuel host n) f line) =
          Exec.invokeWith host (Interp.withFuel host n) f owner args line := by
      refine Exec.inCall_congr (fun s hs => ?_) _ owner args line
      cases f with
      | script parameters body id =>
        exact Exec.takeResult_congr (fun s hs => Exec.preparedBy hprep _ body (.inr hs)) hs
      | _ => rfl
    rw [Interp.preparing, ih]
    simp only [executes, invokes]
    rfl

theorem Exec.runScriptBy_eq (interp : Interp) (script : Script) :
    Exec.runScriptBy prep interp script = Exec.runScript interp script := by
  funext s
  refine Ends.bind_congr ((beginScript_ends s).mono (fun _ t ht => ?_) fun _ _ h => h)
  refine bind_congr_left (mapFailure_congr (withFrames_congr fun frames => ?_) _) _
  exact Exec.preparedBy hprep interp script.statements (.inl ht.1)

end

/-! ## Declarations that are looked at -/

noncomputable section

open Classical in
/-- Hand over to `notice` unless declaring the statements would complete and change nothing. -/
def Exec.unlessSettled (notice : List Stmt → Exec Unit) (ss : List Stmt) : Exec Unit := fun s =>
  if prepareAll ss s = .ok () s then .ok () s else notice ss s

mutual

/-- Declare what a statement defines, and look at the declarations of an included file. -/
def Exec.prepareLooking (notice : List Stmt → Exec Unit) : Stmt → Exec Unit
  | .include _ body _ => do
    prepareEach notice body
    unlessSettled notice body
  | st => prepare st

/-- Declare what statements define, and look at the declarations of included files. -/
def Exec.prepareEach (notice : List Stmt → Exec Unit) : List Stmt → Exec Unit
  | [] => pure ()
  | st :: ss => do
    prepareLooking notice st
    prepareEach notice ss

end

/-- Declare what statements define. Right behind the declarations of the list, and right behind
those of each included file, at any depth, `notice` is run if they are not settled. -/
def Exec.prepareNoticing (notice : List Stmt → Exec Unit) (ss : List Stmt) : Exec Unit := do
  prepareEach notice ss
  unlessSettled notice ss

end

namespace Exec

variable {notice : List Stmt → Exec Unit} {s : State}

theorem unlessSettled_of_prepared {ss : List Stmt} (hs : s.Bare) :
    (prepareAll ss >>= fun _ => unlessSettled notice ss) s = prepareAll ss s := by
  cases h : prepareAll ss s with
  | error f t => exact bind_of_error h
  | ok _ t =>
    rw [bind_of_ok h, unlessSettled, if_pos (prepareAll_settled hs h)]

mutual

theorem prepareLooking_eq : ∀ (st : Stmt) {s : State}, s.Bare →
    prepareLooking notice st s = prepare st s
  | .include _ body _, s, hs => by
    unfold prepareLooking prepare
    rw [bind_congr_left (prepareEach_eq body hs), unlessSettled_of_prepared hs]
  | .function _, s, _ | .classDef _ _ _ _ _, s, _ | .expression _, s, _ | .assign _ _ _, s, _
  | .update _ _ _ _, s, _ | .realize _ _ _, s, _ | .nop _, s, _ | .block _ _, s, _
  | .branch _ _ _ _, s, _ | .loop _ _, s, _ | .whileLoop _ _ _, s, _ | .doWhile _ _ _, s, _
  | .forLoop _ _ _ _ _, s, _ | .break _, s, _ | .continue _, s, _ | .return _ _, s, _
  | .global _ _, s, _ => by
    unfold prepareLooking
    rfl

theorem prepareEach_eq : ∀ (ss : List Stmt) {s : State}, s.Bare →
    prepareEach notice ss s = prepareAll ss s
  | [], s, _ => by
    unfold prepareEach
    rfl
  | st :: ss, s, hs => by
    unfold prepareEach prepareAll
    rw [bind_congr_left (prepareLooking_eq st hs)]
    refine Ends.bind_congr (E := fun _ _ => True)
      (ends_iff.2 ⟨fun _ t completed => ?_, fun _ _ _ => trivial⟩)
    exact prepareEach_eq ss (bare_of_prepare hs completed)

end

/-- Where lists are declared, nothing is noticed. -/
theorem prepareNoticing_eq (ss : List Stmt) (hs : s.Bare) :
    prepareNoticing notice ss s = prepareAll ss s := by
  unfold prepareNoticing
  rw [bind_congr_left (prepareEach_eq ss hs), unlessSettled_of_prepared hs]

end Exec

/-- Declaring a list of statements is idempotent: after its declarations have completed, declaring
it again completes and leaves the whole state as it is. So it is wherever a list is declared in a
run: the interpreter that looks, right behind the declarations of every script, block, body of a
function or realization and included file, whether declaring the same list again would complete and
change nothing, and else does something more, whatever that is, is the interpreter of the
language. -/
theorem preparation_settled (host : Host) (fuel : Nat) (notice : List Stmt → Exec Unit) :
    let prep := Exec.prepareNoticing notice
    (∀ (ss : List Stmt) (s t : State), s.Bare → Exec.prepareAll ss s = .ok () t →
      Exec.prepareAll ss t = .ok () t) ∧
    Interp.preparing prep host fuel = Interp.withFuel host fuel ∧
    ∀ script, Exec.runScriptBy prep (Interp.preparing prep host fuel) script =
      Exec.runScript (Interp.withFuel host fuel) script := by
  intro prep
  have unnoticed (ss : List Stmt) (s : State) (hs : s.Bare) : prep ss s = Exec.prepareAll ss s :=
    Exec.prepareNoticing_eq ss hs
  have same := Interp.preparing_eq unnoticed host fuel
  refine ⟨fun ss s t => Exec.prepareAll_settled, same, fun script => ?_⟩
  rw [same, Exec.runScriptBy_eq unnoticed]

/-- A function and a class in an included file are declared, then declared again; and a block that
hoists a function is run by the interpreter that fails at what is not settled. -/
theorem preparation_settled_included :
    let host : Host := fun _ => return none
    let s := (State.initial 200).restart
    let file : List Stmt := [definitionOfOne, .classDef false "T" [] ⟨0, 1⟩ 1]
    let ss : List Stmt := [.include "/library" file 1, .nop 2]
    let prep := Exec.prepareNoticing fun _ => throw .emptyStack
    (∃ t, s.Bare ∧ Exec.prepareAll ss s = .ok () t ∧ Exec.prepareAll ss t = .ok () t) ∧
      Exec.result? ((do Exec.value (← Exec.runScriptBy prep (Interp.preparing prep host 9)
        definesInBlock)) s) = some (.integer 1) := by
  intro host s file ss prep
  obtain ⟨settled, -, scripts⟩ := preparation_settled host 9 fun _ => throw .emptyStack
  have bare : s.Bare := .inl rfl
  have completes : Exec.prepareAll ss s = .ok () (finalState (Exec.prepareAll ss s)) :=
    Exec.eq_ok_of_result? (by cbv)
  refine ⟨⟨_, bare, completes, settled ss s _ bare completes⟩, ?_⟩
  rw [scripts definesInBlock]
  cbv

end CellScript
