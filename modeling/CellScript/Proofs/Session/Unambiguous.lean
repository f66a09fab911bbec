import CellScript.Proofs.Binding.Growing
import CellScript.Proofs.Session.Followed
import CellScript.Proofs.Session.Globals

/-!
# Global names are unambiguous in sessions

A search among the global scopes would find the topmost binding of a name. It does not matter, for
no two of them bind a name: whoever binds one looks in all of them first, and so does whoever
registers a type. A host may add and remove global scopes in between, none or all of them.

* `Session.Operation`: requests of a host, whether or not the host sees to what they are allowed
  for, and functions of its own;
* `Session.after`: the session after any operations, failed ones included;
* `Session.names_unambiguous`: names and types are in one global scope at most, and an operation
  that fails leaves what is bound and registered as it is.
-/

namespace CellScript

open Exec (Along)

/-! ## Operations -/

namespace Session

/-- What a host does with a session: it makes requests, and it adds functions of its own. -/
inductive Operation
  | request (r : Request)
  | addFunction (name : String) (f : Callable)

namespace Operation

/-- Do what the operation says. -/
def perform (host : Host) : Operation → SessionM Unit
  | request r => r.perform host
  | addFunction name f => lift (Exec.defineFunction name f)

/-- Whether the operation binds a name or registers a type, and nothing else. -/
def registers : Operation → Bool
  | request (.addItem _ _) => true
  | request (.addCell _ _) => true
  | request (.addFunction _ _) => true
  | request (.addType _) => true
  | request _ => false
  | addFunction _ _ => true

end Operation

/-- The session after operations, which may fail. -/
def after (host : Host) (ops : List Operation) (s : Session) : Session :=
  ops.foldl (fun s op => finalState (op.perform host s)) s

end Session

/-! ## What operations keep -/

namespace Scope.Unambiguous

theorem empty : Unambiguous [.empty] where
  names _ := List.countP_le_length
  types _ := List.countP_le_length

variable {top : Scope} {below : List Scope}

theorem push (h : Unambiguous below) : Unambiguous (.empty :: below) where
  names name := by
    rw [List.countP_cons]
    exact h.names name
  types name := by
    rw [List.countP_cons]
    exact h.types name

theorem pop (h : Unambiguous (top :: below)) : Unambiguous below where
  names name := Nat.le_trans (List.sublist_cons_self top below).countP_le (h.names name)
  types name := Nat.le_trans (List.sublist_cons_self top below).countP_le (h.types name)

end Scope.Unambiguous

namespace State

/-- The global scopes have grown since the first state. -/
theorem inner_grown (s : State) : Inner s.Grown := fun _ _ h _ hg _ _ _ => h.trans (.of_eq hg)

end State

namespace Exec

variable {α : Type} {Q : α → Prop} {x : Exec α}

/-- Where the global scopes have grown, they go on to grow. -/
theorem Along.keepsGrown (h : Along ProgramOrder.growing Q x) (s : State) : Keeps s.Grown x :=
  fun t ht => (h t trivial).mono (fun _ _ hu => ht.trans hu.2) fun _ _ hu => ht.trans hu

variable {host : Host} (hh : host.Grows) (s : State)

include hh

theorem runScript_keepsGrown (n : Nat) (script : Script) :
    Keeps s.Grown (runScript (Interp.withFuel host n) script) := by
  have all : Nodes.any.all false script.statements := fun _ _ => trivial
  have ran : Along ProgramOrder.growing (fun _ => True)
      ((Interp.withFuel host n).run script.statements) := (growing_withFuel hh n).run all
  exact s.inner_grown.runScript (.update fun _ ht => ht.trans (.of_eq rfl))
    (Along.keepsGrown (.newCell _) s) (Along.keepsGrown (.prepared _ ran) s)

theorem callFromHost_keepsGrown (n : Nat) (c : Cell) (args : List Cell) :
    Keeps s.Grown (callFromHost (Interp.withFuel host n) c args) := by
  intro t ht
  unfold callFromHost
  rw [ends_value_bind]
  split
  · next f owner _ =>
    have called : Along ProgramOrder.growing (fun _ => True)
        ((Interp.withFuel host n).invoke f owner args none) :=
      (growing_withFuel hh n).invoke owner args none trivial
    have reset : Keeps s.Grown (modify State.reset) := .update fun _ hu => hu.trans (.of_eq rfl)
    exact reset.bind (fun _ => (s.inner_grown.withFrames (called.keepsGrown s)).mapFailure _) t ht
  · exact ht

end Exec

theorem HostItem.keepsGrown (name : String) (item : HostItem) (s : State) :
    Exec.Keeps s.Grown (do Exec.addGlobal name (← item.make) none) := by
  have made : Along ProgramOrder.growing (fun _ => True)
      (do Exec.addGlobal name (← item.make) none) :=
    (HostItem.along_make item).after fun c => .addGlobal name c none
  exact made.keepsGrown s

namespace Session

variable {host : Host}

/-- The global scopes grow with every request but those that are about them as a whole. -/
theorem keepsGrown (hh : host.Grows) (s : State) :
    KeptByRequests host (fun _ => True) s.Grown where
  trace logger message := Along.keepsGrown (.trace logger message) s
  runScript script _ := Exec.runScript_keepsGrown hh s fuel script
  callFromHost := Exec.callFromHost_keepsGrown hh s fuel
  text c := by
    have told : Along ProgramOrder.growing (fun _ => True) (Exec.fullText (interp host) c none) :=
      (growing_withFuel hh fuel).fullText c none trivial
    exact told.keepsGrown s
  addItem name item _ := item.keepsGrown name s
  addCell name c _ := Along.keepsGrown (.addGlobal name c none) s
  addFunction name f := Along.keepsGrown (.defineFunction name _) s
  addType t _ := Along.keepsGrown (.defineType t) s
  frames _ := .update fun _ ht => ht.trans (.of_eq rfl)

/-- Whether the operation is about the global scopes as a whole. -/
def Operation.rearranges : Operation → Bool
  | request .reset => true
  | request .pushGlobal => true
  | request .popGlobal => true
  | _ => false

theorem Operation.keepsGrown (hh : host.Grows) (s : State) {op : Operation}
    (h : op.rearranges = false) : Keeps s.Grown (op.perform host) := by
  have kept := Session.keepsGrown hh s
  cases op with
  | addFunction name f => exact Keeps.lift (Along.keepsGrown (.defineFunction name f) s)
  | request r =>
    cases r with
    | parse source path => exact (kept.parse source path).discard
    | run source path => exact (kept.run source path).discard
    | runFile path => exact (kept.runFile path).discard
    | execute script => exact (Keeps.lift (Exec.runScript_keepsGrown hh s fuel script)).discard
    | call name args => exact (kept.callNamed name args).discard
    | callCell c args => exact (Keeps.lift (kept.callFromHost c args)).discard
    | text c => exact (Keeps.lift (kept.text c)).discard
    | addItem name item => exact Keeps.lift (item.keepsGrown name s)
    | addCell name c => exact Keeps.lift (kept.addCell name c trivial)
    | addFunction name f => exact Keeps.lift (kept.addFunction name f)
    | addType t => exact Keeps.lift (Along.keepsGrown (.defineType t) s)
    | frames n => exact Keeps.lift (kept.frames n)
    | reset | pushGlobal | popGlobal => cases h

theorem freshContext_unambiguous (standardLibrary : Bool) (s : State) :
    Scope.Unambiguous (finalState (Exec.freshContext standardLibrary s)).globals := by
  have installed : Exec.Keeps (fun t => Scope.Unambiguous t.globals) Exec.installLibrary :=
    fun t ht => (Along.installLibrary (R := ProgramOrder.growing.toHeapOrder) t trivial).mono
      (fun _ _ hu => hu.2.unambiguous ht) fun _ _ hu => hu.unambiguous ht
  exact (Exec.freshContext_ends installed standardLibrary Scope.Unambiguous.empty).final

/-- Every operation keeps names and types unambiguous, whether it completes or fails. -/
theorem Operation.unambiguous (hh : host.Grows) (op : Operation) {s : Session}
    (hs : Scope.Unambiguous s.state.globals) :
    Scope.Unambiguous (finalState (op.perform host s)).state.globals := by
  by_cases h : op.rearranges = false
  · have grown := op.keepsGrown hh s.state h s (.of_eq rfl)
    exact State.Grown.unambiguous grown hs
  · cases op with
    | addFunction name f => exact absurd rfl h
    | request r =>
      cases r with
      | reset =>
        change Scope.Unambiguous (finalState (lift _ s)).state.globals
        rw [finalState_lift]
        exact freshContext_unambiguous s.standardLibrary s.state
      | pushGlobal =>
        change Scope.Unambiguous s.state.pushGlobal.globals
        exact hs.push
      | popGlobal =>
        change Scope.Unambiguous (finalState (lift _ s)).state.globals
        rw [finalState_lift]
        cases hg : s.state.globals with
        | nil =>
          rwa [Exec.popGlobal_of_nil hg]
        | cons top below =>
          rw [Exec.popGlobal_eq hg]
          rw [hg] at hs
          exact hs.pop
      | _ => exact absurd rfl h

theorem after_unambiguous (hh : host.Grows) (ops : List Operation) {s : Session}
    (hs : Scope.Unambiguous s.state.globals) :
    Scope.Unambiguous (after host ops s).state.globals := by
  induction ops generalizing s with
  | nil => exact hs
  | cons op ops ih => exact ih (op.unambiguous hh hs)

/-! ## Operations that fail -/

/-- A scope can only be taken away if there is one, and beginning anew never fails. So whatever
fails leaves what is bound and registered as it is. -/
theorem Operation.kept_of_failed (hh : host.Grows) {op : Operation} {s t : Session}
    {f : SessionFailure} (h : op.perform host s = .error f t) :
    Scope.Kept s.state.globals t.state.globals := by
  by_cases hop : op.rearranges = false
  · have grown := op.keepsGrown hh s.state hop s (.of_eq rfl)
    rw [h] at grown
    exact State.Grown.kept grown
  · cases op with
    | addFunction name f => exact absurd rfl hop
    | request r =>
      cases r with
      | reset =>
        obtain ⟨u, completed⟩ := reset_completes s
        cases completed.symm.trans h
      | pushGlobal => cases h
      | popGlobal =>
        change lift Exec.popGlobal s = _ at h
        unfold lift at h
        cases hg : s.state.globals with
        | nil =>
          simp only [Exec.popGlobal_of_nil hg] at h
          cases h
          rw [hg]
          exact .refl _
        | cons top below =>
          simp only [Exec.popGlobal_eq hg] at h
          cases h
      | _ => exact absurd rfl hop

theorem globals_of_lift {α : Type} {x : Exec α} (hx : x.Atomic) {s t : Session} {f : SessionFailure}
    (h : lift x s = .error f t) : t.state.globals = s.state.globals := by
  unfold lift at h
  have ends := hx s.state
  cases hout : x s.state with
  | ok a u =>
    simp only [hout] at h
    cases h
  | error g u =>
    simp only [hout] at h
    cases h
    exact ends.error hout

theorem defineFunction_atomic (name : String) (f : Callable) :
    (Exec.defineFunction name f).Atomic :=
  .after (.trace _ _) fun _ => .after (.newCell _) fun c => Exec.addGlobal_atomic name c none

/-- What a host binds or registers is bound and registered, or nothing is. -/
theorem Operation.globals_of_refused {op : Operation} (hop : op.registers = true) {s t : Session}
    {f : SessionFailure} (h : op.perform host s = .error f t) :
    t.state.globals = s.state.globals := by
  cases op with
  | addFunction name k => exact globals_of_lift (defineFunction_atomic name k) h
  | request r =>
    cases r with
    | addItem name item =>
      exact globals_of_lift (.after (HostItem.along_make item)
        fun c => Exec.addGlobal_atomic name c none) h
    | addCell name c => exact globals_of_lift (Exec.addGlobal_atomic name c none) h
    | addFunction name k => exact globals_of_lift (defineFunction_atomic name _) h
    | addType k =>
      exact globals_of_lift (.after (.trace _ _) fun _ => Exec.addType_atomic k.name k none) h
    | _ => cases hop

/-! ## Sessions -/

/-- Whatever a host does with a session, and whatever of it fails, each name is bound in one global
scope at most, and each type is registered in one at most. An operation that fails, because a name
is ambiguous or for another reason, leaves all that was bound and registered as it was. If it was
to bind a name or to register a type, it changes no global scope at all, and nor do the steps of
scripts that do this: evaluating a name that may have to be made, and declaring functions and
types. -/
theorem names_unambiguous {host : Host} (hh : host.Grows) (maxCallDepth : Int)
    (standardLibrary tracing : Bool) (sources : Sources) (ops : List Operation) :
    let s := after host ops (create maxCallDepth standardLibrary tracing sources)
    Scope.Unambiguous s.state.globals ∧
    (∀ (op : Operation) (f : SessionFailure) (t : Session), op.perform host s = .error f t →
      Scope.Kept s.state.globals t.state.globals ∧
        (op.registers = true → t.state.globals = s.state.globals)) ∧
    (∀ name use line, (Exec.evaluateName name use line).Atomic) ∧
    (∀ f, (Exec.declareFunction f).Atomic) ∧
    ∀ name t line, (Exec.addType name t line).Atomic := by
  intro s
  have created : Scope.Unambiguous
      (create maxCallDepth standardLibrary tracing sources).state.globals := by
    rw [state_create]
    exact freshContext_unambiguous standardLibrary _
  exact ⟨after_unambiguous hh ops created,
    fun op f t h => ⟨op.kept_of_failed hh h, fun hop => op.globals_of_refused hop h⟩,
    Exec.evaluateName_atomic, Exec.declareFunction_atomic, Exec.addType_atomic⟩

/-- A name is bound below an empty scope, and then a function is to get the same name. The functions
of the host bind a name themselves. -/
theorem names_unambiguous_pushed :
    let host : Host := fun name => do Exec.defineGlobal name .undefined; return none
    let ops : List Operation := [.request (.addItem "x" (.integer 1)), .request .pushGlobal]
    let s := after host ops (create 200 false false ⟨⟨[], "/"⟩, [], []⟩)
    let op := Operation.addFunction "x" (.host "x" [])
    host.Grows ∧ s.state.globals.map (·.has "x") = [false, true] ∧
      (∃ t, op.perform host s = .error (.run (.script (.ambiguousGlobal "x") none)) t ∧
        t.state.globals = s.state.globals) ∧
      Scope.Unambiguous s.state.globals := by
  intro host ops s op
  have grows : host.Grows := fun name t => by
    have bound : Along ProgramOrder.growing (fun _ => True) (host name) :=
      (Along.defineGlobal name _).after fun _ => .pure trivial
    exact ((bound t trivial).mono (fun _ _ h => h.2) fun _ _ h => h).final
  obtain ⟨unambiguous, refused, -⟩ :=
    names_unambiguous grows 200 false false ⟨⟨[], "/"⟩, [], []⟩ ops
  have fails : op.perform host s = .error (.run (.script (.ambiguousGlobal "x") none))
      (finalState (op.perform host s)) := rfl
  exact ⟨grows, rfl, ⟨_, fails, (refused op _ _ fails).2 rfl⟩, unambiguous⟩

end Session

end CellScript
