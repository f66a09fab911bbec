import CellScript.Proofs.Detached.Guarded
import CellScript.Proofs.Session.Stacks

/-!
# Stored cells in sessions

Whatever a host asks of a session, as long as it binds global names to new cells only, no two stored
cells share anything afterwards (`Session.stored_cells_detached`), and neither do they at any time
while a script runs or a function is called.
-/

namespace CellScript

/-- Nothing runs, and nothing is shared. -/
structure State.AtRest (s : State) : Prop where
  idle : s.Idle
  tidy : s.Tidy (fun _ => true) fun _ => False

namespace State.AtRest

/-- The result slots, flags and frames may be any. -/
theorem same {s t : State} (h : s.AtRest) (hs : t.store = s.store) (hg : t.globals = s.globals)
    (hl : t.locals = []) (hi : t.instants = []) (hd : t.callDepth = 0) : t.AtRest := by
  obtain ⟨cells, types, globals⟩ := h.idle.sound
  refine ⟨⟨⟨hs ▸ cells, hg ▸ types, hg ▸ globals⟩, hl, hi, hd⟩, h.tidy.calm hg ?_ hs⟩
  rw [hl, h.idle.locals]

theorem inner : State.Inner State.AtRest := fun _ _ h hs hg hl hi hd =>
  h.same hs hg (hl.trans h.idle.locals) (hi.trans h.idle.instants) (hd.trans h.idle.callDepth)

end State.AtRest

namespace Exec

variable {α : Type} {l : Flags} {Q : α → Prop}

theorem Tidied.keeps_rest {x : Exec α} (h : Tidied l Q x) : Keeps State.AtRest x := fun s hs =>
  (Ends.and (h.1.keeps_idle s hs.idle) (h.2 s hs.idle.sound _ _ hs.tidy)).mono
    (fun _ _ ⟨hi, ht, _⟩ => ⟨hi, ht⟩) fun _ _ ⟨hi, ht, _⟩ => ⟨hi, ht⟩

/-! ## Runs and calls -/

theorem keeps_reset : Keeps State.AtRest (modify State.reset) :=
  .update fun _ hs => hs.same rfl rfl rfl rfl rfl

theorem calm_trace (logger message : String) : Calm (trace logger message) := by
  intro s
  unfold trace
  rw [ends_get_bind]
  split
  · exact ⟨rfl, rfl, rfl⟩
  · exact ⟨rfl, rfl, rfl⟩

theorem tidied_trace (logger message : String) :
    Tidied l (fun _ => True) (trace logger message) :=
  .of_calm (Restores.trace logger message) (calm_trace logger message)

theorem keeps_newCell : Keeps State.AtRest (newCell .undefined) :=
  Tidied.keeps_rest (tidy.newCell .undefined trivial)

/-- Steps that do the same in tidy states do the same at rest. -/
theorem Same.at_rest {x y : Exec α} (h : Same x y) (s : State) (hs : s.AtRest) : x s = y s :=
  h s _ _ hs.idle.sound hs.tidy

section

variable (host : Host) (n : Nat)

theorem alike_program {script : Script} (h : Stmt.closedAll false script.statements = true) :
    Alike .ofReturn (fun _ => True)
      (do prepareAll script.statements; (Interp.guarded State.Detached host n).run script.statements)
      (do prepareAll script.statements; (Interp.withFuel host n).run script.statements) :=
  (alike_guarded host n).prepareAndRun h

theorem keeps_runScript {script : Script} (h : Stmt.closedAll false script.statements = true) :
    Keeps State.AtRest (runScript (Interp.withFuel host n) script) :=
  State.AtRest.inner.runScript keeps_reset keeps_newCell (alike_program host n h).1.keeps_rest

theorem runScript_guarded {script : Script} (h : Stmt.closedAll false script.statements = true)
    {s : State} (hs : s.AtRest) :
    runScript (Interp.guarded State.Detached host n) script s =
      runScript (Interp.withFuel host n) script s :=
  State.AtRest.inner.runScript_congr keeps_reset keeps_newCell (alike_program host n h).2.at_rest hs

theorem alike_invoke {f : Callable} (owner : Option ObjectRef) (args : List Cell)
    (hf : f.closed = true) :
    Alike .none (fun _ => True) ((Interp.guarded State.Detached host n).invoke f owner args none)
      ((Interp.withFuel host n).invoke f owner args none) :=
  (alike_guarded host n).invoke owner args none hf

theorem value_rest {s : State} (hs : s.AtRest) (c : Cell) {E : Failure → State → Prop} :
    (value c).Ends s (fun v t => v.Closed ∧ t.AtRest) E :=
  ⟨hs.idle.sound.value c, hs⟩

theorem keeps_callFromHost (c : Cell) (args : List Cell) :
    Keeps State.AtRest (callFromHost (Interp.withFuel host n) c args) := by
  intro s hs
  refine Ends.bind (value_rest hs c) ?_
  rintro v t ⟨hv, ht⟩
  split
  · next f owner =>
    have called := State.AtRest.inner.withFrames (alike_invoke host n owner args hv).1.keeps_rest
    exact keeps_reset.bind (fun _ => called.mapFailure _) t ht
  · exact ht

theorem callFromHost_guarded (c : Cell) (args : List Cell) {s : State} (hs : s.AtRest) :
    callFromHost (Interp.guarded State.Detached host n) c args s =
      callFromHost (Interp.withFuel host n) c args s := by
  refine State.AtRest.inner.callFromHost_congr keeps_reset (fun f owner hv => ?_) hs
  have closed : Value.Closed (.function f owner) := hv ▸ hs.idle.sound.value c
  exact (alike_invoke host n owner args closed).2.at_rest

end

/-! ## New names and types -/

theorem tidied_addGlobal {x : Exec Cell} (name : String) (hr : Restores .none (fun _ => True) x)
    (hx : ∀ {X P s}, s.Sound → s.Tidy X P → Orderly X P x s (OnTheWay X P)) :
    Tidied .none (fun _ => True) (do addGlobal name (← x) none) :=
  ⟨hr.bind fun c _ => Restores.addGlobal name c none, fun _ hs _ _ h =>
    (hx hs h).bind fun _ _ ht => addGlobal_orderly ht name none⟩

theorem tidied_defineGlobal (name : String) {v : Value} (hv : v.Closed)
    (hc : v.isComponent = false) (hb : v.backing? = none) :
    Tidied .none (fun _ => True) (defineGlobal name v) :=
  tidied_addGlobal name (Restores.newCell hv) fun _ h => newCell_fresh (.plain h hc hb)

theorem tidied_defineFunction (name : String) (f : Builtin) :
    Tidied .none (fun _ => True) (defineFunction name (.builtin f)) :=
  (tidied_trace _ _).bind fun _ _ =>
    tidied_defineGlobal (v := .function (.builtin f) none) name rfl rfl rfl

theorem tidied_defineType {t : ObjectType} (ht : t.Closed) :
    Tidied .none (fun _ => True) (defineType t) :=
  (tidied_trace _ _).bind fun _ _ => tidy.addType t.name t none ht

theorem plain_standardConstants {x : String × Value} (h : x ∈ standardConstants) :
    x.2.isComponent = false ∧ x.2.backing? = none := by
  simp only [standardConstants, List.mem_cons, List.not_mem_nil, or_false] at h
  rcases h with rfl | rfl | rfl | rfl | rfl | rfl <;> exact ⟨rfl, rfl⟩

theorem tidied_installLibrary : Tidied .none (fun _ => True) installLibrary :=
  installLibrary_related tidy
    (fun x hx => tidied_defineGlobal x.1 (closed_standardConstants hx)
      (plain_standardConstants hx).1 (plain_standardConstants hx).2)
    fun f => tidied_defineFunction f.name f

end Exec

namespace HostItem

open Exec (Orderly OnTheWay AllOnTheWay)

mutual

/-- What a host makes is new, down to the elements of lists. -/
theorem make_orderly {X : String → Bool} {P : Cell → Prop} {s : State} : ∀ {item : HostItem},
    item.Closed → s.Sound → s.Tidy X P → Orderly X P item.make s (OnTheWay X P)
  | .undefined, _, _, h | .boolean _, _, _, h | .integer _, _, _, h | .string _, _, _, h
  | .function _, _, _, h | .objectType _, _, _, h => by
    unfold make
    exact Exec.newCell_fresh (.plain h rfl rfl)
  | .real x, _, hs, h => by
    unfold make
    exact Orderly.bind ((tidy.keep x).2 s hs X P h) fun _ _ ht =>
      Exec.newCell_fresh (.plain ht rfl rfl)
  | .color c, _, hs, h => by
    unfold make
    exact Orderly.bind ((tidy.keepColor c).2 s hs X P h) fun _ _ ht =>
      (Exec.allocColor_fresh ht _).bind fun _ _ hu => Exec.newCell_fresh hu
  | .vector v, _, hs, h => by
    unfold make
    exact Orderly.bind ((tidy.keepVector v).2 s hs X P h) fun _ _ ht =>
      (Exec.allocVector_fresh ht _).bind fun _ _ hu => Exec.newCell_fresh hu
  | .list items, hitem, hs, h => by
    unfold make
    refine (makeAll_orderly (by simpa [Closed] using hitem) hs h).bind fun cs t ht => ?_
    exact (Exec.allocList_fresh ht.1 ht.2 cs.toArray
      fun d hd => Or.inr (List.mem_toArray.1 hd)).bind fun _ _ hu => Exec.newCell_fresh hu
  | .object t, _, hs, h => by
    unfold make
    exact (Exec.makeObject_orderly h t).bind fun _ _ ht => Exec.newCell_fresh (.plain ht rfl rfl)

theorem makeAll_orderly {X : String → Bool} {P : Cell → Prop} {s : State} :
    ∀ {items : List HostItem}, AllClosed items → s.Sound → s.Tidy X P →
      Orderly X P (makeAll items) s (AllOnTheWay X P)
  | [], _, _, h => by
    unfold makeAll
    exact .pure (.nil h)
  | item :: items, hitems, hs, h => by
    unfold makeAll
    simp only [AllClosed] at hitems
    refine ((make_orderly hitems.1 hs h).restoring (l := .none) (restores_make hitems.1) hs).bind
      fun c t ⟨ht, _, hsound, _⟩ => ?_
    exact ((makeAll_orderly hitems.2 hsound ht.1).weaken fun _ => Or.inl).bind fun cs u hu =>
      .pure (.cons ht.2 hu)

end

end HostItem

/-! ## Global scopes -/

namespace State

theorem layer?_lt {scopes : List Scope} {i : Nat} {a : Scope} (h : layer? scopes i = some a) :
    i < scopes.length := by
  induction scopes with
  | nil => cases h
  | cons scope below ih =>
    unfold layer? at h
    rw [List.length_cons]
    split at h
    · omega
    · have := ih h
      omega

/-- The place of a global name that has a cell is in a scope. -/
theorem place?_global {s : State} {i : Nat} {name : String} {c : Cell}
    (h : s.place? (.global i name) = some c) :
    ∃ a, layer? s.globals i = some a ∧ a.items.find? name = some c :=
  Option.bind_eq_some_iff.1 h

variable {X : String → Bool} {P : Cell → Prop} {s t : State}

/-- Fewer global names. -/
theorem Tidy.fewer_globals (h : s.Tidy X P)
    (hg : ∀ i name c, t.place? (.global i name) = some c → s.place? (.global i name) = some c)
    (hl : t.locals = s.locals) (hs : t.store = s.store) : t.Tidy X P := by
  refine h.shrink (fun p c hp => ?_) (owned_sublist (owned_congr hl)) (fun _ => id)
    (fun c hc => hs ▸ hc) (hs ▸ h.separate)
  cases p with
  | global i name => exact hg i name c hp
  | member r name => simpa only [place?, hs] using hp

theorem Tidy.restart (h : s.Tidy X P) (hl : s.locals = []) : s.restart.Tidy X P := by
  refine h.fewer_globals (fun i name c hp => ?_) hl.symm rfl
  obtain ⟨a, ha, hc⟩ := place?_global hp
  simp only [State.restart, layer?] at ha
  split at ha
  · cases ha
    simp [Scope.empty, Bindings.find?, Bindings.empty, Bindings.lookup] at hc
  · cases ha

theorem Tidy.pushGlobal (h : s.Tidy X P) : s.pushGlobal.Tidy X P := by
  refine h.fewer_globals (fun i name c hp => ?_) rfl rfl
  obtain ⟨a, ha, hc⟩ := place?_global hp
  simp only [State.pushGlobal, layer?] at ha
  split at ha
  · cases ha
    simp [Scope.empty, Bindings.find?, Bindings.empty, Bindings.lookup] at hc
  · exact Option.bind_eq_some_iff.2 ⟨a, ha, hc⟩

theorem Tidy.popGlobal (h : s.Tidy X P) {top : Scope} {below : List Scope}
    (hg : s.globals = top :: below) : State.Tidy X P { s with globals := below } := by
  refine h.fewer_globals (fun i name c hp => ?_) rfl rfl
  obtain ⟨a, ha, hc⟩ := place?_global hp
  have hi : i ≠ below.length := Nat.ne_of_lt (layer?_lt ha)
  refine Option.bind_eq_some_iff.2 ⟨a, ?_, hc⟩
  rw [hg, layer?, if_neg hi]
  exact ha

/-- Nothing is stored in the beginning. -/
theorem tidy_initial (maxCallDepth : Int) (tracing : Bool) :
    State.Tidy X (fun _ => False) { State.initial maxCallDepth with tracing } := by
  let s : State := { State.initial maxCallDepth with tracing }
  have unbound (p : Place) : s.place? p = none := by
    cases p with
    | global i name => rfl
    | member r name => rfl
  have noElement (c : Cell) : ¬ s.store.IsElement c := by
    rintro ⟨r, hr⟩
    simp [s, State.initial, Store.empty, Store.list] at hr
  have untracked (c : Cell) : ¬ s.Tracked X (fun _ => False) c := by
    rintro ((⟨p, hp⟩ | hc | hc) | hc)
    · simp [unbound p] at hp
    · cases hc
    · exact hc
    · exact noElement c hc
  refine ⟨fun p q c hp => ?_, List.nodup_nil, fun p c hp => ?_, fun c _ => id,
    fun c _ => noElement c, ?_⟩
  · exact absurd hp (by rw [unbound p]; simp)
  · exact absurd hp (by rw [unbound p]; simp)
  · exact ⟨fun c hc => absurd hc (untracked c), fun c hc => absurd hc (untracked c),
      fun c _ hc => absurd hc (untracked c), fun c _ _ hc => absurd hc (untracked c)⟩

end State

/-! ## Sessions -/

namespace Session

/-- Between requests nothing runs and nothing is shared. -/
theorem rest_invariant (host : Host) :
    Invariant host (fun r => r.isFresh = true) State.AtRest where
  create maxCallDepth standardLibrary tracing sources := by
    rw [state_create]
    exact (Exec.freshContext_ends Exec.tidied_installLibrary.keeps_rest standardLibrary
      ⟨Exec.idle_restart (by simp [State.initial, Store.empty]),
        (State.tidy_initial maxCallDepth tracing).restart rfl⟩).final
  fresh standardLibrary s hs := Exec.freshContext_ends Exec.tidied_installLibrary.keeps_rest
    standardLibrary ⟨Exec.idle_restart hs.idle.sound.cells, hs.tidy.restart hs.idle.locals⟩
  trace logger message := (Exec.tidied_trace (l := .none) logger message).keeps_rest
  runScript script h := Exec.keeps_runScript host fuel h
  callFromHost c args := Exec.keeps_callFromHost host fuel c args
  text c := Exec.Tidied.keeps_rest ((alike_guarded host fuel).fullText c none).1
  addItem name item h := (Exec.tidied_addGlobal name (HostItem.restores_make h)
    fun hs ht => HostItem.make_orderly h hs ht).keeps_rest
  addCell name c h := by simp [Request.isFresh] at h
  addFunction name f := (Exec.tidied_defineFunction name f).keeps_rest
  addType t h := (Exec.tidied_defineType h).keeps_rest
  frames n s hs := State.AtRest.inner hs rfl rfl rfl rfl rfl
  pushGlobal s hs := ⟨(idle_invariant host fun _ => True).pushGlobal s hs.idle, hs.tidy.pushGlobal⟩
  popGlobal s hs hlen := by
    refine ⟨(idle_invariant host fun _ => True).popGlobal s hs.idle hlen, ?_⟩
    obtain ⟨top, below, hg⟩ : ∃ top below, s.globals = top :: below :=
      List.exists_cons_of_ne_nil hs.idle.sound.globals
    rw [Exec.popGlobal_eq hg]
    exact hs.tidy.popGlobal hg

/-- However a host uses a session, as long as it binds global names to new cells only, stored cells
are detached: global names and members have cells of their own that are no elements of lists, no two
stored cells refer to the same color, vector or list, and none stands for a component. While a
script runs or a function is called, they are so wherever an expression, a statement, a call or a
text begins or ends. -/
theorem stored_cells_detached (host : Host) {session : Session}
    (h : Reachable host (fun r => r.isFresh = true) session) :
    session.state.Detached ∧
    ∀ n : Nat,
      (∀ script : Script, script.Parsed →
        Exec.runScript (Interp.guarded State.Detached host n) script session.state =
          Exec.runScript (Interp.withFuel host n) script session.state) ∧
      ∀ (c : Cell) (args : List Cell),
        Exec.callFromHost (Interp.guarded State.Detached host n) c args session.state =
          Exec.callFromHost (Interp.withFuel host n) c args session.state := by
  have rest := (rest_invariant host).reachable h
  refine ⟨rest.tidy.detached, fun n => ⟨fun script hp => ?_, fun c args => ?_⟩⟩
  · exact Exec.runScript_guarded host n hp.closed rest
  · exact Exec.callFromHost_guarded host n c args rest

/-- A new session that has run `a = [1]; b = a;`, where both names have lists of their own. -/
theorem stored_cells_detached_copy :
    let host : Host := fun _ => pure none
    let script : Script := ⟨[.assign (.name "a" .location 1) (.list [.integer 1 1] 1) 1,
      .assign (.name "b" .location 1) (.name "a" .operand 1) 1]⟩
    let first := create 200 false false ⟨⟨[], "/"⟩, [], []⟩
    let session := finalState ((Request.execute script).perform host first)
    script.Parsed ∧ Reachable host (fun r => r.isFresh = true) session ∧
      session.state.place? (.global 0 "a") = some ⟨4⟩ ∧
      session.state.place? (.global 0 "b") = some ⟨5⟩ ∧
      (session.state.store.get ⟨4⟩).backing? = some (.list ⟨1⟩) ∧
      (session.state.store.get ⟨5⟩).backing? = some (.list ⟨2⟩) ∧
      session.state.Detached := by
  intro host script first session
  have parsed : script.Parsed := .inl ⟨⟨⟨[], "/"⟩, [], []⟩, 0, none, "a = [1]; b = a;", by cbv⟩
  have reached : Reachable host (fun r => r.isFresh = true) session :=
    .request (.execute script) (.create _ _ _ _) parsed rfl
  exact ⟨parsed, reached, by decide +kernel, by decide +kernel, by decide +kernel,
    by decide +kernel, (stored_cells_detached host reached).1⟩

end Session

end CellScript
