import Mathlib
import CellScript.Proofs.Binding.Stable
import CellScript.Proofs.Session.Reachable

/-!
# Definitions are declared before they are reached

Executing a definition does nothing: the function or the type has been declared before, when the
list of statements that the definition is in was entered. A list is the script itself, a block, the
body of a function or of a realization, or an included file in such a list. The unbraced branch of
a condition and the unbraced body of a loop are no lists. A definition in their place, or in a file
included in their place, is reached without having been declared.

A function that has been declared is found by its name, as long as the list that it is in does not
declare this name as global before the definition is reached: then the name is looked for among the
global names only, and the function is hidden if none of them has it.

`Interp.audited listed alone` is the interpreter that gives up where it reaches a definition that is
not declared, in a list or alone, where it is told to look.

* `State.declares`, `State.hides`: what is defined is found, or hidden by its own list;
* `Exec.prepareAll_declares`: entering a list declares all that is defined in it;
* `agree_audited`: the audited interpreter stands for that of the language;
* `listed_definitions_declared`: looking at the lists makes no difference, but at hidden functions.
-/

namespace CellScript

open Exec (Framed FramedAlways failure?)

/-! ## Names and types in reach -/

/-- Whether the function or the type that a statement defines is found by its name. -/
def State.declares (s : State) : Stmt → Bool
  | .function f => (s.find? f.name).isSome
  | .classDef _ name _ _ _ => (s.findType? name).isSome
  | _ => true

/-- Whether the innermost local scope declares a name as global. -/
def State.declaresInnermost (s : State) (name : String) : Bool :=
  s.locals.head?.any (·.scope.globalNames.contains name)

/-- Whether a statement defines a function whose name the innermost local scope declares as global,
while no global scope binds it. -/
def State.hides (s : State) : Stmt → Bool
  | .function f => s.declaresInnermost f.name && (s.findGlobal? f.name).isNone
  | _ => false

mutual

/-- A statement, or the statements of an included file in its place. -/
def Stmt.spliced : Stmt → List Stmt
  | .include _ body _ => Stmt.splicedAll body
  | st => [st]

/-- Statements with those of included files in their places. -/
def Stmt.splicedAll : List Stmt → List Stmt
  | [] => []
  | st :: ss => st.spliced ++ Stmt.splicedAll ss

end

/-- What a statement defines has been declared: it is found, or a function that is hidden. -/
def State.Covers (s : State) (st : Stmt) : Prop := s.declares st = true ∨ s.hides st = true

/-- All that is defined in a list of statements has been declared. -/
def State.CoversAll (s : State) (ss : List Stmt) : Prop := ∀ st ∈ Stmt.splicedAll ss, s.Covers st

namespace State

variable {s : State}

theorem findGlobalIn_isSome (name : String) (scopes : List Scope) :
    (findGlobalIn name scopes).isSome = scopes.any (·.has name) := by
  induction scopes with
  | nil => rfl
  | cons scope below ih =>
    simp only [findGlobalIn, List.any_cons, Scope.has, Bindings.contains] at ih ⊢
    cases scope.items.find? name with
    | some c => rfl
    | none => simpa using ih

theorem findTypeIn_isSome (name : String) (scopes : List Scope) :
    (findTypeIn name scopes).isSome = scopes.any (·.types.contains name) := by
  induction scopes with
  | nil => rfl
  | cons scope below ih =>
    simp only [findTypeIn, List.any_cons, Bindings.contains] at ih ⊢
    cases scope.types.find? name with
    | some t => rfl
    | none => simpa using ih

theorem find?_isSome (s : State) (name : String) :
    (s.find? name).isSome = ((s.findLocal? name).isSome || (s.findGlobal? name).isSome) := by
  unfold find?
  cases s.findLocal? name <;> rfl

/-- Where the innermost scope declares nothing as global, a name bound there is found, and the
others are found as before. -/
theorem find?_mapTop_add {top : Frame} {below : List Frame} (hl : s.locals = top :: below)
    (hnone : top.scope.globalNames = []) (name other : String) (c : Cell) :
    (s.mapTop (·.add name c)).find? other = if name = other then some c else s.find? other := by
  have hbound : (s.mapTop (·.add name c)).locals =
      { top with scope := top.scope.add name c } :: below := by
    simp [mapTop, hl]
  have hglobal : (s.mapTop (·.add name c)).findGlobal? other = s.findGlobal? other := by
    rw [findGlobal?, globals_mapTop]
    rfl
  unfold find?
  rw [hglobal, findLocal?, findLocal?, chain, chain, hbound, hl]
  simp only [chainOf, Scope.findIn, Scope.add, hnone, List.contains_nil, Bool.false_eq_true,
    if_false, Bindings.find?_insert]
  by_cases h : name = other
  · simp [h]
  · simp [h]

/-- Where there are no local scopes, the same is so of names bound in the top global scope. -/
theorem find?_add_global {top : Scope} {below : List Scope} (hl : s.locals = [])
    (hg : s.globals = top :: below) (name other : String) (c : Cell) :
    State.find? { s with globals := top.add name c :: below } other =
      if name = other then some c else s.find? other := by
  simp only [find?, findLocal?, chain, hl, chainOf, Scope.findIn, findGlobal?, hg, findGlobalIn,
    Scope.add, Bindings.find?_insert]
  by_cases h : name = other
  · simp [h]
  · simp [h]

/-- A hidden function is not found. -/
theorem find?_eq_none_of_hides {f : FunctionDef Stmt} (h : s.hides (.function f) = true) :
    s.find? f.name = none := by
  unfold hides declaresInnermost at h
  rw [Bool.and_eq_true, Option.isNone_iff_eq_none] at h
  obtain ⟨declared, missing⟩ := h
  cases hl : s.locals with
  | nil => simp [hl] at declared
  | cons top below =>
    have here : top.scope.globalNames.contains f.name = true := by simpa [hl] using declared
    have nowhere : s.findLocal? f.name = none := by
      rw [findLocal?, chain, hl, chainOf, Scope.findIn, here]
      rfl
    rw [find?, nowhere]
    exact missing

end State

/-! ## What is declared stays declared -/

theorem TopOnly.any {α : Type} {R : α → α → Prop} {as bs : List α} {p : α → Bool}
    (h : TopOnly R as bs) (hp : ∀ a b, R a b → p a = true → p b = true) (ha : as.any p = true) :
    bs.any p = true := by
  cases h with
  | nil => exact ha
  | cons below hab =>
    rw [List.any_cons, Bool.or_eq_true] at ha ⊢
    exact ha.imp_left (hp _ _ hab)

/-- What is found along a chain is found if the innermost scope gains names, unless this scope
declares the name as global. -/
theorem Scope.Extends.findIn_isSome {a b : Scope} (h : a.Extends b) {name : String}
    {outer : List Scope} (bare : b.globalNames.contains name = false)
    (ha : (findIn name (a :: outer)).isSome = true) : (findIn name (b :: outer)).isSome = true := by
  have barer : a.globalNames.contains name = false := by
    rw [← Bool.not_eq_true, List.contains_iff_mem] at bare ⊢
    exact fun declared => bare (h.globalNames declared)
  rw [findIn, barer] at ha
  rw [findIn, bare]
  cases hb : b.items.find? name with
  | some c => rfl
  | none =>
    cases hc : a.items.find? name with
    | some c => simp [h.items name c hc] at hb
    | none => simpa [hc] using ha

namespace State

variable {spared : String → Prop} {s t : State}

theorem Steady.declaresInnermost (h : s.Steady spared t) {name : String}
    (hs : s.declaresInnermost name = true) : t.declaresInnermost name = true := by
  have locals := h.locals
  unfold State.declaresInnermost at hs ⊢
  generalize s.locals = fs at locals hs
  generalize t.locals = gs at locals ⊢
  cases locals with
  | nil => exact hs
  | cons below hfg =>
    rw [List.head?_cons, Option.any_some, List.contains_iff_mem] at hs ⊢
    exact hfg.scope.globalNames hs

theorem Steady.findGlobal?_isSome (h : s.Steady spared t) {name : String}
    (hs : (s.findGlobal? name).isSome = true) : (t.findGlobal? name).isSome = true := by
  have has (a b : Scope) (hab : a.Extends b) (ha : a.has name = true) : b.has name = true := by
    obtain ⟨c, hc⟩ := Option.isSome_iff_exists.1 ha
    exact Option.isSome_iff_exists.2 ⟨c, hab.items name c hc⟩
  unfold State.findGlobal? at hs ⊢
  rw [findGlobalIn_isSome] at hs ⊢
  exact h.globals.any has hs

/-- What is found locally stays so, unless the innermost scope declares the name as global. -/
theorem Steady.findLocal?_isSome (h : s.Steady spared t) {name : String}
    (bare : t.declaresInnermost name = false) (hs : (s.findLocal? name).isSome = true) :
    (t.findLocal? name).isSome = true := by
  have locals := h.locals
  unfold State.declaresInnermost at bare
  unfold State.findLocal? chain at hs ⊢
  generalize s.locals = fs at locals hs
  generalize t.locals = gs at locals bare ⊢
  cases locals with
  | nil => exact hs
  | @cons f g below hfg =>
    rw [chainOf] at hs ⊢
    rw [hfg.linked]
    rw [List.head?_cons, Option.any_some] at bare
    exact hfg.scope.findIn_isSome bare hs

theorem Steady.findType? (h : s.Steady spared t) {name : String}
    (hs : (s.findType? name).isSome = true) : (t.findType? name).isSome = true := by
  have has (a b : Scope) (hab : a.Extends b) (ha : a.types.contains name = true) :
      b.types.contains name = true := by
    obtain ⟨u, hu⟩ := Option.isSome_iff_exists.1 ha
    exact Option.isSome_iff_exists.2 ⟨u, hab.types name u hu⟩
  unfold State.findType? at hs ⊢
  rw [findTypeIn_isSome] at hs ⊢
  exact h.globals.any has hs

/-- What has been declared stays so: where it is found no more, it has been hidden. -/
theorem Steady.covers (h : s.Steady spared t) {st : Stmt} (hs : s.Covers st) : t.Covers st := by
  cases st with
  | function f =>
    cases global : (t.findGlobal? f.name).isSome with
    | true =>
      left
      rw [State.declares, find?_isSome, global, Bool.or_true]
    | false =>
      have missing : (s.findGlobal? f.name).isSome = false :=
        Bool.eq_false_iff.2 fun found => by simp [h.findGlobal?_isSome found] at global
      cases bare : t.declaresInnermost f.name with
      | true => exact .inr (by simpa [State.hides, bare] using global)
      | false =>
        left
        have found : (s.findLocal? f.name).isSome = true := by
          rcases hs with found | hidden
          · rw [State.declares, find?_isSome, missing, Bool.or_false] at found
            exact found
          · rw [State.hides, Bool.and_eq_true] at hidden
            exact absurd (h.declaresInnermost hidden.1) (by simp [bare])
        rw [State.declares, find?_isSome, h.findLocal?_isSome bare found, Bool.true_or]
  | classDef isInstant name methods id line =>
    exact hs.imp h.findType? fun hidden => by cases hidden
  | _ => exact .inl rfl

theorem Steady.coversAll (h : s.Steady spared t) {ss : List Stmt} (hs : s.CoversAll ss) :
    t.CoversAll ss :=
  fun st hst => h.covers (hs st hst)

end State

/-! ## Declaring -/

namespace Exec

theorem declareFunction_found (f : FunctionDef Stmt) {s : State} (hs : s.Bare) :
    (declareFunction f).Ends s (fun _ t => (t.find? f.name).isSome = true) fun _ _ => True := by
  let u : State := { s with store := (s.store.alloc f.toValue).2 }
  refine .declareFunction (fun c _ _ hf _ _ => ?_) trivial (fun _ hl => ?_) fun _ hl => ?_
  · rw [hf, Option.isSome_some]
  · refine .addGlobal (fun top below hg _ => ?_) fun _ _ => trivial
    rw [State.find?_add_global (s := u) hl hg, if_pos rfl, Option.isSome_some]
  · obtain ⟨top, below, hl, bare⟩ := hs.resolve_left hl
    refine .addLocal (fun _ => ?_) fun _ => trivial
    rw [State.find?_mapTop_add (s := u) hl bare, if_pos rfl, Option.isSome_some]

theorem addType_found (name : String) (t : ObjectType) (line : Option Nat) (s : State) :
    (addType name t line).Ends s (fun _ u => (u.findType? name).isSome = true) fun _ _ => True := by
  refine .addType (fun old hf _ => ?_) (fun top below _ _ => ?_) trivial fun _ => trivial
  · rw [hf, Option.isSome_some]
  · simp [State.findType?, State.findTypeIn, Bindings.find?_insert]

mutual

/-- What has been declared is found when the declaration completes, or what it includes has been. -/
theorem prepare_declares : ∀ (st : Stmt) {s : State}, s.Bare →
    (prepare st).Ends s (fun _ t => s.Declared t ∧ ∀ d ∈ st.spliced, t.Covers d) fun _ _ => True
  | .function f, s, hs => by
    unfold prepare Stmt.spliced
    refine ((declareFunction_ends f hs).and (declareFunction_found f hs)).mono ?_
      fun _ _ _ => trivial
    rintro _ t ⟨declared, found⟩
    exact ⟨declared, fun d hd => .inl (List.mem_singleton.1 hd ▸ found)⟩
  | .classDef isInstant name methods id line, s, hs => by
    unfold prepare Stmt.spliced
    refine ((addType_ends name _ _ s).and (addType_found name _ _ s)).mono ?_ fun _ _ _ => trivial
    rintro _ t ⟨declared, found⟩
    exact ⟨declared, fun d hd => .inl (List.mem_singleton.1 hd ▸ found)⟩
  | .include _ body _, s, hs => by
    unfold prepare Stmt.spliced
    exact prepareAll_declares body hs
  | .expression _, s, _ | .assign _ _ _, s, _ | .update _ _ _ _, s, _ | .realize _ _ _, s, _
  | .nop _, s, _ | .block _ _, s, _ | .branch _ _ _ _, s, _ | .loop _ _, s, _
  | .whileLoop _ _ _, s, _ | .doWhile _ _ _, s, _ | .forLoop _ _ _ _ _, s, _ | .break _, s, _
  | .continue _, s, _ | .return _ _, s, _ | .global _ _, s, _ => by
    unfold prepare Stmt.spliced
    exact ⟨.refl s, by simp [State.Covers, State.declares]⟩

/-- Entering a list of statements declares all that is defined in it. -/
theorem prepareAll_declares : ∀ (ss : List Stmt) {s : State}, s.Bare →
    (prepareAll ss).Ends s (fun _ t => s.Declared t ∧ t.CoversAll ss) fun _ _ => True
  | [], s, _ => by
    unfold prepareAll
    exact ⟨.refl s, by simp [State.CoversAll, Stmt.splicedAll]⟩
  | st :: ss, s, hs => by
    unfold prepareAll
    refine Ends.bind (prepare_declares st hs) fun _ t ⟨begun, first⟩ => ?_
    refine (prepareAll_declares ss (begun.bare hs)).mono ?_ fun _ _ _ => trivial
    rintro _ u ⟨declared, rest⟩
    refine ⟨begun.trans declared, fun d hd => ?_⟩
    rw [Stmt.splicedAll, List.mem_append] at hd
    rcases hd with hd | hd
    · exact declared.steady.covers (first d hd)
    · exact rest d hd

end

end Exec

/-! ## The audited interpreter -/

/-- Give up instead of running a definition that is not found, where one is told to look. -/
def Exec.auditing (looks : State → Stmt → Bool) (st : Stmt) (x : Exec Unit) : Exec Unit := fun s =>
  if looks s st && !s.declares st then .error .emptyStack s else x s

/-- Run a statement that stands alone. What is included in its place stands alone as well. -/
def Exec.executeAlone (limit : Nat) (self : Interp) : Stmt → Exec Unit
  | .include _ body _ => Exec.runAll self.execute body
  | st => Exec.executeWith limit self st

/-- The interpreter with the given fuel that gives up where it reaches a definition that is not
found. In lists of statements it looks where `listed` says so, and at what stands alone where
`alone` does. -/
def Interp.audited (listed alone : State → Stmt → Bool) (host : Host) : (fuel : Nat) → Interp
  | 0 => Interp.tied Exec.runAll host 0
  | n + 1 =>
    let self := audited listed alone host n
    { evaluate := Exec.evaluateWith self
      execute := fun st => Exec.auditing alone st (Exec.executeAlone n self st)
      run := Exec.runAll fun st => Exec.auditing listed st (Exec.executeWith n self st)
      invoke := Exec.invokeWith host self
      text := Exec.textWith n self }

theorem Exec.auditing_never (st : Stmt) (x : Exec Unit) :
    Exec.auditing (fun _ _ => false) st x = x := rfl

/-- Where a definition has been declared, only looking at hidden ones makes a difference. -/
theorem Exec.auditing_congr {looks looks' : State → Stmt → Bool} {st : Stmt} {x y : Exec Unit}
    {s : State} (covered : s.Covers st) (same : s.hides st = true → looks s st = looks' s st)
    (h : x s = y s) : Exec.auditing looks st x s = Exec.auditing looks' st y s := by
  unfold Exec.auditing
  rcases covered with declared | hidden
  · simpa [declared] using h
  · rw [same hidden, h]

theorem Interp.tied_run (host : Host) (n : Nat) :
    (Interp.tied Exec.runAll host n).run =
      Exec.runAll (Interp.tied Exec.runAll host n).execute := by
  cases n <;> rfl

/-- Where nothing is looked at, the interpreter is that of the language. -/
theorem Interp.audited_eq_withFuel (host : Host) (n : Nat) :
    Interp.audited (fun _ _ => false) (fun _ _ => false) host n = Interp.withFuel host n := by
  rw [Interp.withFuel_eq_tied]
  induction n with
  | zero => rfl
  | succ n ih =>
    have alone (st : Stmt) :
        Exec.executeAlone n (Interp.tied Exec.runAll host n) st =
          Exec.executeWith n (Interp.tied Exec.runAll host n) st := by
      unfold Exec.executeAlone
      split
      · next path body line =>
        change Exec.runAll _ body = (Interp.tied Exec.runAll host n).run body
        rw [Interp.tied_run]
      · rfl
    unfold Interp.audited Interp.tied
    rw [ih]
    simp only [Exec.auditing_never, alone]

theorem Exec.Framed.auditing {spared : String → Prop} {x y : Exec Unit}
    (looks : State → Stmt → Bool) (st : Stmt)
    (h : FramedAlways .emptyStack spared (fun _ => True) x y) :
    FramedAlways .emptyStack spared (fun _ => True) (Exec.auditing looks st x) y := by
  have cases (s : State) : Exec.auditing looks st x s = .error .emptyStack s ∨
      Exec.auditing looks st x s = x s := by
    unfold Exec.auditing
    split
    · exact .inl rfl
    · exact .inr rfl
  refine ⟨fun s hs => ?_, fun s hs => ?_⟩
  · unfold Ends
    rcases cases s with gaveUp | same
    · rw [gaveUp]
      exact .refl s
    · rw [same]
      exact h.steady s hs
  · rcases cases s with gaveUp | same
    · rw [gaveUp]
      exact .inl rfl
    · rw [same]
      exact h.same s hs

/-- The audited interpreter does what the interpreter of the language does, unless it gives up. -/
theorem agree_audited {host : Host} (hh : Host.Steady (fun _ => False) host)
    (listed alone : State → Stmt → Bool) (fuel : Nat) :
    (framing Failure.passedOn_emptyStack fun _ => False).AgreeOn .any
        (Interp.audited listed alone host fuel) (Interp.tied Exec.runAll host fuel) ∧
      ∀ frames c line, FramedAlways .emptyStack (fun _ => False) (fun _ => True)
        ((Interp.audited listed alone host fuel).text frames c line)
        ((Interp.tied Exec.runAll host fuel).text frames c line) := by
  have full := Fragment.making_full fun _ => ¬ False
  induction fuel with
  | zero =>
    have out (frames : Nat) (c : Cell) (line : Option Nat) :
        FramedAlways .emptyStack (fun _ => False) (fun _ => True)
          ((Interp.audited listed alone host 0).text frames c line)
          ((Interp.tied Exec.runAll host 0).text frames c line) := .throw .outOfFuel
    exact ⟨{
      evaluate := fun _ => .throw .outOfFuel
      execute := fun _ => .throw .outOfFuel
      run := fun _ => .runAll (fun _ => .throw .outOfFuel) _
      invoke := fun _ _ _ _ => .throw .outOfFuel
      fullText := fun c line _ => framed_fullText out c line }, out⟩
  | succ k ih =>
    obtain ⟨on, texts⟩ := ih
    have execute (st : Stmt) := on.executeWith k (full.stmtParts false st)
    have executeAlone (st : Stmt) : FramedAlways .emptyStack (fun _ => False) (fun _ => True)
        (Exec.executeAlone k (Interp.audited listed alone host k) st)
        (Exec.executeWith k (Interp.tied Exec.runAll host k) st) := by
      unfold Exec.executeAlone
      split
      · next path body line =>
        change FramedAlways _ _ _ (Exec.runAll _ body) ((Interp.tied Exec.runAll host k).run body)
        rw [Interp.tied_run]
        have each (st : Stmt) : FramedAlways .emptyStack (fun _ => False) (fun _ => True)
            ((Interp.audited listed alone host k).execute st)
            ((Interp.tied Exec.runAll host k).execute st) :=
          on.execute (show Nodes.any.stmt false st from trivial)
        exact .runAll each body
      · exact execute st
    have text (frames : Nat) (c : Cell) (line : Option Nat) :
        FramedAlways .emptyStack (fun _ => False) (fun _ => True)
          ((Interp.audited listed alone host (k + 1)).text frames c line)
          ((Interp.tied Exec.runAll host (k + 1)).text frames c line) :=
      on.textWith trivial trivial texts k frames c line
    exact ⟨{
      evaluate := fun _ => on.evaluateWith (full.exprParts fun _ _ _ h => h)
      execute := fun _ => .auditing alone _ (executeAlone _)
      run := fun _ => .runAll (fun st => .auditing listed st (execute st)) _
      invoke := fun owner args line _ => framed_invokeWith hh on _ owner args line
      fullText := fun c line _ => framed_fullText text c line }, text⟩

/-! ## Steps that agree where a list is entered -/

namespace Exec

variable {x y : Exec Unit}

theorem fillObject_congr (h : ∀ s, s.Opened → x s = y s) (obj : Cell) (r : ObjectRef) :
    fillObject obj r x = fillObject obj r y := by
  funext s
  have scope := ((framingSteps Failure.passedOn_emptyStack fun _ => False).memberScope r).steady s
    trivial
  refine Ends.bind_congr (scope.mono (fun members t hm => ?_) fun _ _ h => h)
  exact bind_congr_left (inRealization_congr (h _ (t.opened_realizing obj hm.1))) _

theorem takeResult_congr (h : ∀ s, s.Opened → x s = y s) {s : State} (hs : s.Opened) :
    takeResult x s = takeResult y s := by
  let c := s.store.alloc .undefined
  have opened : State.Opened { s with store := c.2, returns := c.1 :: s.returns } := hs.congr rfl
  exact bind_congr_left (h _ opened) _

theorem inCall_congr {x y : Exec Cell} (h : ∀ s, s.Opened → x s = y s) (parameters : List String)
    (owner : Option ObjectRef) (args : List Cell) (line : Option Nat) :
    inCall parameters owner args line x = inCall parameters owner args line y := by
  funext s
  let L := framingSteps Failure.passedOn_emptyStack fun _ => False
  rw [inCall_eq_activate, inCall_eq_activate]
  refine Ends.bind_congr (((L.ownerScope owner).steady s trivial).mono ?_ fun _ _ h => h)
  rintro members t ⟨hm, -⟩
  refine Ends.bind_congr (((L.argumentScope parameters args line).steady t trivial).mono ?_
    fun _ _ h => h)
  rintro scope u ⟨hs, -⟩
  exact activate_congr (h _ (u.opened_entered hs hm))

end Exec

/-! ## Lists are declared -/

/-- Two interpreters do the same, where lists of statements are concerned if these are declared. -/
structure Interp.SameDeclared (p q : Interp) : Prop where
  evaluate : p.evaluate = q.evaluate
  execute : p.execute = q.execute
  invoke : p.invoke = q.invoke
  text : p.text = q.text
  run (ss : List Stmt) (s : State) : s.CoversAll ss → p.run ss s = q.run ss s

namespace Interp.SameDeclared

variable {p q : Interp} (h : p.SameDeclared q)

include h

/-- The interpreters differ in how they run lists only. -/
theorem eq_run : q = { p with run := q.run } := by
  obtain ⟨evaluate, execute, run, invoke, text⟩ := q
  obtain ⟨rfl, rfl, rfl, rfl, -⟩ := h
  rfl

theorem evaluateWith (e : Expr) : Exec.evaluateWith p e = Exec.evaluateWith q e := by
  rw [h.eq_run]
  cases e <;> rfl

theorem textWith (limit frames : Nat) (c : Cell) (line : Option Nat) :
    Exec.textWith limit p frames c line = Exec.textWith limit q frames c line := by
  rw [h.eq_run]
  rfl

/-- A list that is entered is declared, and then it is run. -/
theorem prepareAndRun (body : List Stmt) {s : State} (hs : s.Bare) :
    (Exec.prepareAll body >>= fun _ => p.run body) s =
      (Exec.prepareAll body >>= fun _ => q.run body) s :=
  Exec.Ends.bind_congr ((Exec.prepareAll_declares body hs).mono
    (fun _ t declared => h.run body t declared.2) fun _ _ h => h)

theorem invokeWith (host : Host) (f : Callable) (owner : Option ObjectRef) (args : List Cell)
    (line : Option Nat) :
    Exec.invokeWith host p f owner args line = Exec.invokeWith host q f owner args line := by
  refine Exec.inCall_congr (fun s hs => ?_) _ owner args line
  cases f with
  | script parameters body id =>
    exact Exec.takeResult_congr (fun s hs => h.prepareAndRun body (.inr hs)) hs
  | _ =>
    rw [h.eq_run]
    rfl

theorem realize (typeName : String) (body : List Stmt) (line : Nat) :
    Exec.realize p typeName body line = Exec.realize q typeName body line := by
  have filled (obj : Cell) (r : ObjectRef) :=
    Exec.fillObject_congr (fun s hs => h.prepareAndRun body (.inr hs)) obj r
  unfold Exec.realize
  simp only [filled]
  rw [h.eq_run]
  rfl

/-- Statements but included files enter the lists that they hold. -/
theorem executeWith (limit : Nat) {st : Stmt}
    (hst : ∀ path body line, st ≠ .include path body line) :
    Exec.executeWith limit p st = Exec.executeWith limit q st := by
  cases st with
  | block body line =>
    funext s
    exact Exec.inBlock_congr (h.prepareAndRun body (.inr s.opened_block))
  | realize typeName body line => exact h.realize typeName body line
  | «include» path body line => exact absurd rfl (hst path body line)
  | _ =>
    rw [h.eq_run]
    rfl

end Interp.SameDeclared

theorem Stmt.spliced_of_ne {st : Stmt} (h : ∀ path body line, st ≠ .include path body line) :
    st.spliced = [st] := by
  unfold Stmt.spliced
  split
  · next path body line => exact absurd rfl (h path body line)
  · rfl

/-- Steps that agree on what is declared agree on lists that are declared. -/
theorem Exec.runAll_congr {f g : Stmt → Exec Unit}
    (same : ∀ (st : Stmt) (s : State), (∀ d ∈ st.spliced, s.Covers d) → f st s = g st s)
    (steady : ∀ (st : Stmt) (s : State), s.Steady (fun _ => False) (finalState (g st s)))
    (ss : List Stmt) {s : State} (hs : s.CoversAll ss) :
    Exec.runAll f ss s = Exec.runAll g ss s := by
  induction ss generalizing s with
  | nil => rfl
  | cons st ss ih =>
    have here : ∀ d ∈ st.spliced, s.Covers d := fun d hd => hs d (by simp [Stmt.splicedAll, hd])
    have later : s.CoversAll ss := fun d hd => hs d (by simp [Stmt.splicedAll, hd])
    unfold Exec.runAll
    refine (Exec.bind_congr_left (same st s here) _).trans (Exec.Ends.bind_congr
      (E := fun _ _ => True) (Exec.ends_iff.2 ⟨fun _ t completed => ?_, fun _ _ _ => trivial⟩))
    have moved := steady st s
    rw [completed] at moved
    have rest := ih (moved.coversAll later)
    change (if t.flags.any then pure () else Exec.runAll f ss) t =
      (if t.flags.any then pure () else Exec.runAll g ss) t
    split
    · rfl
    · exact rest

/-- Where to look in lists makes no difference but at hidden functions, for every amount of fuel. -/
theorem Interp.audited_listed {host : Host} (hh : Host.Steady (fun _ => False) host)
    {listed listed' : State → Stmt → Bool}
    (same : ∀ s st, s.hides st = true → listed s st = listed' s st)
    (alone : State → Stmt → Bool) (fuel : Nat) :
    (Interp.audited listed alone host fuel).SameDeclared
      (Interp.audited listed' alone host fuel) := by
  induction fuel with
  | zero => exact ⟨rfl, rfl, rfl, rfl, fun _ _ _ => rfl⟩
  | succ n ih =>
    let p := Interp.audited listed alone host n
    let q := Interp.audited listed' alone host n
    refine ⟨funext ih.evaluateWith, funext fun st => ?_, ?_, ?_, fun ss s declared => ?_⟩
    · change Exec.auditing alone st (Exec.executeAlone n p st) =
        Exec.auditing alone st (Exec.executeAlone n q st)
      congr 1
      unfold Exec.executeAlone
      split
      · rw [ih.execute]
      · next other => exact ih.executeWith n fun path body line => other path body line
    · funext f owner args line
      exact ih.invokeWith host f owner args line
    · funext frames c line
      exact ih.textWith n frames c line
    · refine Exec.runAll_congr (fun st t ht => ?_) (fun st t => ?_) ss declared
      · change Exec.auditing listed st (Exec.executeWith n p st) t =
          Exec.auditing listed' st (Exec.executeWith n q st) t
        by_cases hst : ∃ path body line, st = .include path body line
        · obtain ⟨path, body, line, rfl⟩ := hst
          have inside : t.CoversAll body := fun d hd => ht d (by simpa only [Stmt.spliced] using hd)
          exact Exec.auditing_congr (.inl rfl) (same t _) (ih.run body t inside)
        · have other (path : String) (body : List Stmt) (line : Nat) :
              st ≠ .include path body line := fun same => hst ⟨path, body, line, same⟩
          rw [Stmt.spliced_of_ne other] at ht
          exact Exec.auditing_congr (ht st (List.mem_singleton.2 rfl)) (same t st)
            (congrFun (ih.executeWith n other) t)
      · have framed := Exec.Framed.auditing listed' st <|
          (agree_audited hh listed' alone n).1.executeWith n
            ((Fragment.making_full _).stmtParts false st)
        exact framed.final t

/-! ## Scripts -/

namespace Exec

/-- A run begins outside of all local scopes and without flags. -/
theorem beginScript_ends (s : State) :
    beginScript.Ends s (fun _ t => t.locals = [] ∧ t.flags = .none) fun _ _ => True := by
  unfold beginScript trace
  rw [ends_modify_bind]
  refine Ends.bind (Q := fun _ t => t.locals = [] ∧ t.flags = .none) ⟨rfl, rfl⟩ fun c t ht => ?_
  refine Ends.bind (Q := fun _ t => t.locals = [] ∧ t.flags = .none) ht fun _ t ht => ?_
  rw [ends_get_bind, ends_get_bind]
  split
  · exact ht
  · exact ht

theorem runScript_congr {p q : Interp} (h : p.SameDeclared q) (script : Script) :
    runScript p script = runScript q script := by
  funext s
  refine Ends.bind_congr ((beginScript_ends s).mono (fun _ t ht => ?_) fun _ _ h => h)
  refine bind_congr_left (mapFailure_congr (withFrames_congr fun frames => ?_) _) _
  exact h.prepareAndRun script.statements (.inl ht.1)

end Exec

/-- Two interpreters do the same whatever a host has them do: run a script, call a function or turn
a cell into a text. -/
structure Interp.SameRuns (p q : Interp) : Prop where
  script (script : Script) : Exec.runScript p script = Exec.runScript q script
  call (c : Cell) (args : List Cell) : Exec.callFromHost p c args = Exec.callFromHost q c args
  text (c : Cell) : Exec.fullText p c none = Exec.fullText q c none

theorem Interp.SameDeclared.sameRuns {p q : Interp} (h : p.SameDeclared q) : p.SameRuns q where
  script := Exec.runScript_congr h
  call c args := by
    unfold Exec.callFromHost
    rw [h.invoke]
  text c := by
    unfold Exec.fullText
    rw [h.text]

/-- An interpreter gives up or does what another one does, whatever it runs. -/
structure Interp.StandsFor (p q : Interp) : Prop where
  run (ss : List Stmt) (s : State) :
    failure? (p.run ss s) = some .emptyStack ∨ p.run ss s = q.run ss s
  invoke (f : Callable) (owner : Option ObjectRef) (args : List Cell) (line : Option Nat)
    (s : State) : failure? (p.invoke f owner args line s) = some .emptyStack ∨
      p.invoke f owner args line s = q.invoke f owner args line s
  text (c : Cell) (s : State) : failure? (Exec.fullText p c none s) = some .emptyStack ∨
    Exec.fullText p c none s = Exec.fullText q c none s

theorem Interp.audited_standsFor {host : Host} (hh : Host.Steady (fun _ => False) host)
    (listed alone : State → Stmt → Bool) (fuel : Nat) :
    (Interp.audited listed alone host fuel).StandsFor (Interp.withFuel host fuel) := by
  have agree := (agree_audited hh listed alone fuel).1
  rw [← Interp.withFuel_eq_tied] at agree
  have any (ss : List Stmt) : Nodes.any.all false ss := fun _ _ => trivial
  exact ⟨fun ss s => (agree.run (any ss)).same s trivial,
    fun f owner args line s => (agree.invoke (f := f) owner args line trivial).same s trivial,
    fun c s => (agree.fullText c none trivial).same s trivial⟩

/-- A definition that is reached in a list of statements has been declared, in every run: its type
is registered, or its name leads to a function, unless the list has declared this name as global
before and no global scope binds it. The interpreter that gives up at definitions in lists that are
not found, but for hidden ones, does what the interpreter of the language does. So the one that
gives up at all definitions that are not found gives up at hidden ones and at those that stand alone
only, and what it does else is what the interpreter of the language does. -/
theorem listed_definitions_declared {host : Host} (hh : Host.Steady (fun _ => False) host)
    (fuel : Nat) :
    let interp := Interp.withFuel host fuel
    let audited (listed alone : State → Stmt → Bool) := Interp.audited listed alone host fuel
    let always (_ : State) (_ : Stmt) := true
    let never (_ : State) (_ : Stmt) := false
    let unhidden (s : State) (st : Stmt) := !s.hides st
    (audited unhidden never).SameRuns interp ∧
      (audited always always).SameRuns (audited State.hides always) ∧
      (audited always always).StandsFor interp ∧
      ∀ (s : State) (f : FunctionDef Stmt), s.hides (.function f) = true →
        s.find? f.name = none := by
  intro interp audited always never unhidden
  have plain : audited never never = interp := Interp.audited_eq_withFuel host fuel
  have lists : (audited unhidden never).SameRuns (audited never never) :=
    (Interp.audited_listed hh (fun s st hidden => by simp [unhidden, never, hidden]) never
      fuel).sameRuns
  have hidden : (audited always always).SameRuns (audited State.hides always) :=
    (Interp.audited_listed hh (fun s st hidden => hidden.symm) always fuel).sameRuns
  exact ⟨plain ▸ lists, hidden, Interp.audited_standsFor hh always always fuel,
    fun s f => State.find?_eq_none_of_hides⟩

/-- `function one() { return 1; }` -/
def definitionOfOne : Stmt := .function ⟨"one", [], [.return (some (.integer 1 1)) 1], 1, ⟨0, 0⟩, 1⟩

/-- `{ x = one(); function one() { return 1; } return x; }` -/
def definesInBlock : Script :=
  ⟨[.block [.assign (.name "x" .location 1) (.call (.name "one" .operand 1) [] 1) 1,
    definitionOfOne, .return (some (.name "x" .operand 1)) 1] 1]⟩

/-- `{ global one; function one() { return 1; } return one(); }` -/
def definesHidden : Script :=
  ⟨[.block [.global "one" 1, definitionOfOne,
    .return (some (.call (.name "one" .operand 1) [] 1)) 1] 1]⟩

/-- `if (true) function one() { return 1; } return one();` -/
def definesInBranch : Script :=
  ⟨[.branch (.boolean true 1) definitionOfOne none 1,
    .return (some (.call (.name "one" .operand 1) [] 1)) 1]⟩

theorem parsed_definesInBlock : definesInBlock.Parsed := .inl ⟨⟨⟨[], "/"⟩, [], []⟩, 0, none,
  "\x7b x = one(); function one() \x7b return 1; \x7d return x; \x7d", by cbv⟩

theorem parsed_definesHidden : definesHidden.Parsed := .inl ⟨⟨⟨[], "/"⟩, [], []⟩, 0, none,
  "\x7b global one; function one() \x7b return 1; \x7d return one(); \x7d", by cbv⟩

theorem parsed_definesInBranch : definesInBranch.Parsed := .inl ⟨⟨⟨[], "/"⟩, [], []⟩, 0, none,
  "if (true) function one() \x7b return 1; \x7d return one();", by cbv⟩

/-- A function that a block uses before the statement that defines it. -/
theorem listed_definitions_declared_hoisted :
    let host : Host := fun name => do Exec.print name; return none
    let s := (State.initial 200).restart
    let audited := Interp.audited (fun s st => !s.hides st) (fun _ _ => false) host 9
    Host.Steady (fun _ => False) host ∧ definesInBlock.Parsed ∧
      Exec.runScript audited definesInBlock =
        Exec.runScript (Interp.withFuel host 9) definesInBlock ∧
      Exec.result? ((do Exec.value (← Exec.runScript audited definesInBlock)) s) =
        some (.integer 1) := by
  intro host s audited
  have result : Exec.result? ((do Exec.value (← Exec.runScript audited definesInBlock)) s) =
      some (.integer 1) := by cbv
  have steady : Host.Steady (fun _ => False) host := fun _ _ => .of_eq rfl rfl rfl
  have same := (listed_definitions_declared steady 9).1.script definesInBlock
  exact ⟨steady, parsed_definesInBlock, same, result⟩

/-- A function whose name its own block declares as global is hidden when its definition is reached,
and then its name is not known. -/
theorem hidden_definition_undeclared :
    let host : Host := fun _ => return none
    let s := (State.initial 200).restart
    definesHidden.Parsed ∧
      failure? (Exec.runScript (Interp.audited State.hides (fun _ _ => false) host 9)
        definesHidden s) = some .emptyStack ∧
      failure? (Exec.runScript (Interp.withFuel host 9) definesHidden s) =
        some (.script (.unknownIdentifier "one") (some 1)) := by
  intro host s
  exact ⟨parsed_definesHidden, by cbv, by cbv⟩

/-- A function defined in the unbraced branch of a condition is reached and not declared, and then
its name is not known. -/
theorem alone_definition_undeclared :
    let host : Host := fun _ => return none
    let s := (State.initial 200).restart
    definesInBranch.Parsed ∧
      failure? (Exec.runScript (Interp.audited (fun _ _ => false) (fun _ _ => true) host 9)
        definesInBranch s) = some .emptyStack ∧
      failure? (Exec.runScript (Interp.withFuel host 9) definesInBranch s) =
        some (.script (.unknownIdentifier "one") (some 1)) := by
  intro host s
  exact ⟨parsed_definesInBranch, by cbv, by cbv⟩

end CellScript
