import CellScript.Proofs.Outcome
import CellScript.Proofs.Parse.Formed
import CellScript.Session

/-!
# Sessions that a host can bring about

A host creates a session and then makes requests of it, each of which may fail: it parses texts,
runs texts, files and parsed scripts, calls functions, asks for texts, adds global names and types,
begins again, adds and removes global scopes, and sets how many frames the stack of the machine has.
It adds no functions of its own here, only standard ones.

* `Session.Request`: what a host can ask for, and `Request.Allowed`: what it has to see to;
* `Session.Reachable host only`: the sessions that requests satisfying `only` lead to;
* `Session.Invariant`: a property of states that every request keeps, which is then a property of
  all reachable sessions (`Session.Invariant.reachable`).
-/

namespace CellScript

/-! ## New global names -/

/-- What a host makes for a new global name. -/
inductive HostItem
  | undefined
  | boolean (b : Bool)
  | integer (n : Int)
  | real (x : Number)
  | string (s : String)
  | color (c : Color Number)
  | vector (v : Vector2 Number)
  | list (items : List HostItem)
  | function (f : Builtin)
  | object (t : ObjectType)
  | objectType (t : ObjectType)

namespace HostItem

mutual

/-- A new cell with the item. -/
def make : HostItem → Exec Cell
  | .undefined => Exec.newCell .undefined
  | .boolean b => Exec.newCell (.boolean b)
  | .integer n => Exec.newCell (.integer n)
  | .real x => Exec.newReal x
  | .string s => Exec.newCell (.string s)
  | .color c => Exec.newColor c
  | .vector v => Exec.newVector v
  | .list items => do Exec.newList (← makeAll items).toArray
  | .function f => Exec.newCell (.function (.builtin f) none)
  | .object t => Exec.newObject t
  | .objectType t => Exec.newCell (.objectType t)

/-- New cells with the items. -/
def makeAll : List HostItem → Exec (List Cell)
  | [] => return []
  | item :: items => do
    let c ← make item
    let cs ← makeAll items
    return c :: cs

end

mutual

/-- The types in the item are closed. -/
def Closed : HostItem → Prop
  | .list items => AllClosed items
  | .object t => t.Closed
  | .objectType t => t.Closed
  | _ => True

/-- The types in the items are closed. -/
def AllClosed : List HostItem → Prop
  | [] => True
  | item :: items => item.Closed ∧ AllClosed items

end

end HostItem

namespace Session

/-! ## Requests -/

/-- What a host can ask of a session. -/
inductive Request
  | parse (source : String) (path : Option String)
  | run (source : String) (path : Option String)
  | runFile (path : String)
  | execute (script : Script)
  | call (name : String) (args : List Cell)
  | callCell (c : Cell) (args : List Cell)
  | text (c : Cell)
  /-- Bind a global name to a new cell. -/
  | addItem (name : String) (item : HostItem)
  /-- Bind a global name to a cell that is there already. -/
  | addCell (name : String) (c : Cell)
  | addFunction (name : String) (f : Builtin)
  | addType (t : ObjectType)
  | reset
  | pushGlobal
  | popGlobal
  /-- Give the stack of the machine so many frames. -/
  | frames (n : Nat)

namespace Request

/-- Do what a request asks for. -/
def perform (host : Host) : Request → SessionM Unit
  | parse source path => discard (Session.parse source path)
  | run source path => discard (Session.run host source path)
  | runFile path => discard (Session.runFile host path)
  | execute script => discard (Session.execute host script)
  | call name args => discard (Session.callNamed host name args)
  | callCell c args => discard (Session.callCell host c args)
  | text c => discard (Session.text host c)
  | addItem name item => lift do Exec.addGlobal name (← item.make) none
  | addCell name c => lift (Exec.addGlobal name c none)
  | addFunction name f => lift (Exec.defineFunction name (.builtin f))
  | addType t => lift (Exec.defineType t)
  | reset => Session.reset
  | pushGlobal => lift (modify State.pushGlobal)
  | popGlobal => lift Exec.popGlobal
  | frames n => lift (modify fun s => { s with frames := n })

/-- What a host sees to: scripts come from the parser, its types are closed, and one global scope
stays. -/
def Allowed (s : Session) : Request → Prop
  | execute script => script.Parsed
  | addItem _ item => item.Closed
  | addType t => t.Closed
  | popGlobal => 2 ≤ s.state.globals.length
  | _ => True

/-- Whether the request binds global names to new cells only. -/
def isFresh : Request → Bool
  | addCell _ _ => false
  | _ => true

end Request

/-- The sessions that allowed requests satisfying `only` lead to. -/
inductive Reachable (host : Host) (only : Request → Prop) : Session → Prop
  | create (maxCallDepth : Int) (standardLibrary tracing : Bool) (sources : Sources) :
    Reachable host only (Session.create maxCallDepth standardLibrary tracing sources)
  | request {s : Session} (r : Request) : Reachable host only s → r.Allowed s → only r →
    Reachable host only (finalState (r.perform host s))

end Session

/-- Steps that do the same in any frames do the same in those that a run is given. -/
theorem Exec.withFrames_congr {α : Type} {x y : Exec α} {s : State}
    (h : ∀ n, x { s with frames := n } = y { s with frames := n }) :
    withFrames x s = withFrames y s := by
  refine Ends.bind_congr (E := fun _ _ => True) ?_
  rw [ends_get]
  split
  · rfl
  · split
    · rfl
    · have run := ensuring_congr (h (s.frames + framesPerCall * s.maxCallDepth).toNat)
        (modify fun t => { t with frames := s.frames })
      exact run

/-! ## Invariants -/

/-- The step leads from states with the property to states with the property, also by failing. -/
def Exec.Keeps (I : State → Prop) {α : Type} (x : Exec α) : Prop :=
  ∀ s, I s → x.Ends s (fun _ t => I t) fun _ t => I t

namespace Exec.Keeps

variable {I : State → Prop} {α β : Type}

theorem bind {x : Exec α} {f : α → Exec β} (hx : Keeps I x) (hf : ∀ a, Keeps I (f a)) :
    Keeps I (x >>= f) :=
  fun s hs => Ends.bind (hx s hs) fun a t ht => hf a t ht

theorem update {f : State → State} (h : ∀ s, I s → I (f s)) : Keeps I (modify f) := h

theorem mapFailure {x : Exec α} (g : Failure → Failure) (hx : Keeps I x) :
    Keeps I (mapFailure g x) :=
  fun s hs => Ends.mapFailure (hx s hs)

theorem ensuring {x : Exec α} {finish : Exec Unit} (hx : Keeps I x) (hf : Keeps I finish) :
    Keeps I (ensuring x finish) :=
  fun s hs => Ends.ensuring ((hx s hs).mono (fun _ t ht => hf t ht) fun _ t ht => hf t ht)

end Exec.Keeps

/-- The property looks at the storage, the scopes and what is active, but not at result slots,
flags, frames and what is written. -/
def State.Inner (I : State → Prop) : Prop :=
  ∀ ⦃s t : State⦄, I s → t.store = s.store → t.globals = s.globals → t.locals = s.locals →
    t.instants = s.instants → t.callDepth = s.callDepth → I t

namespace State.Inner

open Exec (Keeps)

variable {I : State → Prop} (h : State.Inner I) {α : Type}

include h

theorem trace (logger message : String) : Keeps I (Exec.trace logger message) := by
  intro s hs
  unfold Exec.trace
  rw [Exec.ends_get_bind]
  split
  · exact h hs rfl rfl rfl rfl rfl
  · exact hs

/-- The frames are put back after a run. -/
theorem withFrames {x : Exec α} (hx : Keeps I x) : Keeps I (Exec.withFrames x) := by
  have framed (n : State → Nat) : Keeps I (modify fun s => { s with frames := n s }) :=
    .update fun s hs => h hs rfl rfl rfl rfl rfl
  intro s hs
  unfold Exec.withFrames
  rw [Exec.ends_get_bind]
  dsimp only
  split
  · exact hs
  · split
    · exact hs
    · exact (framed _).bind (fun _ => hx.ensuring (framed _)) s hs

theorem beginScript (hreset : Keeps I (modify State.reset))
    (hcell : Keeps I (Exec.newCell .undefined)) : Keeps I Exec.beginScript := by
  refine hreset.bind fun _ => hcell.bind fun c => ?_
  refine Keeps.bind (.update fun s hs => h hs rfl rfl rfl rfl rfl) fun _ => ?_
  exact fun s hs => h.trace _ _ s hs

theorem endScript : Keeps I Exec.endScript := by
  have popped : Keeps I Exec.popReturn := fun s hs =>
    .popReturn (fun _ _ _ => h hs rfl rfl rfl rfl rfl) fun _ => hs
  have lowered : Keeps I (modify fun s => { s with flags := .none }) :=
    .update fun s hs => h hs rfl rfl rfl rfl rfl
  have reported (c : Cell) : Keeps I (Exec.report c) := by
    intro s hs
    unfold Exec.report
    rw [Exec.ends_get_bind]
    split
    · rw [Exec.ends_get_bind]
      split
      · exact h.trace _ _ s hs
      · exact hs
    · exact hs
  exact popped.bind fun c => lowered.bind fun _ => (reported c).bind fun _ s hs => hs

/-- A run keeps the property if what is run does. -/
theorem runScript (hreset : Keeps I (modify State.reset))
    (hcell : Keeps I (Exec.newCell .undefined)) {interp : Interp} {script : Script}
    (hprogram : Keeps I (do Exec.prepareAll script.statements; interp.run script.statements)) :
    Keeps I (Exec.runScript interp script) :=
  (h.beginScript hreset hcell).bind fun _ => ((h.withFrames hprogram).mapFailure _).bind fun _ =>
    h.endScript

section

variable {p q : Interp} {s : State}

/-- Steps that do the same where the property holds do so in the frames that a run is given. -/
theorem withFrames_congr {x y : Exec α} (same : ∀ t, I t → x t = y t) (hs : I s) :
    Exec.withFrames x s = Exec.withFrames y s :=
  Exec.withFrames_congr fun _ => same _ (h hs rfl rfl rfl rfl rfl)

/-- Runs do the same if what is run does where the property holds. -/
theorem runScript_congr (hreset : Keeps I (modify State.reset))
    (hcell : Keeps I (Exec.newCell .undefined)) {script : Script}
    (same : ∀ t, I t → (do Exec.prepareAll script.statements; p.run script.statements) t =
      (do Exec.prepareAll script.statements; q.run script.statements) t) (hs : I s) :
    Exec.runScript p script s = Exec.runScript q script s := by
  refine Exec.Ends.bind_congr (E := fun _ _ => True)
    ((h.beginScript hreset hcell s hs).mono (fun _ t ht => ?_) fun _ _ _ => trivial)
  exact Exec.bind_congr_left (Exec.mapFailure_congr (h.withFrames_congr same ht) _) _

/-- Calls from the host do the same if the calls of the function do. -/
theorem callFromHost_congr (hreset : Keeps I (modify State.reset)) {c : Cell} {args : List Cell}
    (same : ∀ f owner, s.store.get c = .function f owner → ∀ t, I t →
      p.invoke f owner args none t = q.invoke f owner args none t) (hs : I s) :
    Exec.callFromHost p c args s = Exec.callFromHost q c args s := by
  unfold Exec.callFromHost
  rw [Exec.value_bind_apply, Exec.value_bind_apply]
  cases hv : s.store.get c with
  | function f owner =>
    refine Exec.Ends.bind_congr (E := fun _ _ => True)
      ((hreset s hs).mono (fun _ t ht => ?_) fun _ _ _ => trivial)
    exact Exec.mapFailure_congr (h.withFrames_congr (same f owner hv) ht) _
  | _ => rfl

end

end State.Inner

namespace Session

/-- A property of states that is kept by every request but those that are about the global scopes as
a whole. -/
structure KeptByRequests (host : Host) (only : Request → Prop) (I : State → Prop) : Prop where
  trace (logger message : String) : Exec.Keeps I (Exec.trace logger message)
  runScript (script : Script) : Stmt.closedAll false script.statements = true →
    Exec.Keeps I (Exec.runScript (interp host) script)
  callFromHost (c : Cell) (args : List Cell) :
    Exec.Keeps I (Exec.callFromHost (interp host) c args)
  text (c : Cell) : Exec.Keeps I (Exec.fullText (interp host) c none)
  addItem (name : String) (item : HostItem) : item.Closed →
    Exec.Keeps I (do Exec.addGlobal name (← item.make) none)
  addCell (name : String) (c : Cell) : only (.addCell name c) →
    Exec.Keeps I (Exec.addGlobal name c none)
  addFunction (name : String) (f : Builtin) : Exec.Keeps I (Exec.defineFunction name (.builtin f))
  addType (t : ObjectType) : t.Closed → Exec.Keeps I (Exec.defineType t)
  frames (n : Nat) : Exec.Keeps I (modify fun s => { s with frames := n })

/-- A property of states that begins to hold with a session and that every request keeps. -/
structure Invariant (host : Host) (only : Request → Prop) (I : State → Prop) : Prop extends
    KeptByRequests host only I where
  create (maxCallDepth : Int) (standardLibrary tracing : Bool) (sources : Sources) :
    I (Session.create maxCallDepth standardLibrary tracing sources).state
  fresh (standardLibrary : Bool) : Exec.Keeps I (Exec.freshContext standardLibrary)
  pushGlobal : Exec.Keeps I (modify State.pushGlobal)
  popGlobal (s : State) : I s → 2 ≤ s.globals.length → I (finalState (Exec.popGlobal s))

/-- A step of a session that keeps a property of its state. -/
def Keeps (I : State → Prop) {α : Type} (x : SessionM α) : Prop :=
  ∀ s : Session, I s.state → I (finalState (x s)).state

theorem state_create (maxCallDepth : Int) (standardLibrary tracing : Bool) (sources : Sources) :
    (create maxCallDepth standardLibrary tracing sources).state =
      finalState (Exec.freshContext standardLibrary
        { State.initial maxCallDepth with tracing }) := by
  unfold create finalState
  dsimp only
  split
  · next h => rw [h]
  · next h => rw [h]

theorem finalState_lift {α : Type} (x : Exec α) (s : Session) :
    (finalState (lift x s)).state = finalState (x s.state) := by
  unfold lift
  cases hx : x s.state with
  | ok a t => simp only [hx, finalState]
  | error f t => simp only [hx, finalState]

namespace Keeps

variable {I : State → Prop} {α β : Type}

theorem lift {x : Exec α} (h : Exec.Keeps I x) : Keeps I (lift x) := by
  intro s hs
  rw [finalState_lift]
  exact (h s.state hs).final

theorem bind {x : SessionM α} {f : α → SessionM β} (hx : Keeps I x) (hf : ∀ a, Keeps I (f a)) :
    Keeps I (x >>= f) := by
  intro s hs
  have h := hx s hs
  change I (finalState (EStateM.bind x f s)).state
  unfold EStateM.bind
  cases hx' : x s with
  | ok a t =>
    rw [hx'] at h
    exact hf a t h
  | error e t =>
    rw [hx'] at h
    exact h

theorem pure (a : α) : Keeps I (pure a) := fun _ hs => hs

theorem get : Keeps I get := fun _ hs => hs

theorem modify {f : Session → Session} (h : ∀ s, (f s).state = s.state) : Keeps I (modify f) :=
  fun s hs => (h s).symm ▸ hs

theorem discard {x : SessionM α} (h : Keeps I x) : Keeps I (discard x) :=
  h.bind fun _ => pure _

theorem forIn {xs : List α} {f : α → SessionM PUnit} (h : ∀ a, Keeps I (f a)) :
    Keeps I (forIn xs PUnit.unit fun a _ => f a >>= fun _ => Pure.pure (.yield PUnit.unit)) := by
  induction xs with
  | nil => exact pure _
  | cons a xs ih =>
    simp only [List.forIn_cons, bind_assoc, pure_bind]
    exact (h a).bind fun _ => ih

/-- What comes of a parse is a parsed script, or a failure in a state with the property. -/
theorem accept (htrace : ∀ logger message, Exec.Keeps I (Exec.trace logger message))
    {o : ParseOutcome} {x : Script → SessionM α}
    (hx : ∀ script, o.result = .ok script → Keeps I (x script)) :
    Keeps I (Session.accept o >>= x) := by
  unfold Session.accept
  simp only [bind_assoc]
  refine bind (modify fun _ => rfl) fun _ => ?_
  refine bind (forIn fun path => lift (htrace _ _)) fun _ => ?_
  split
  · next script hs =>
    rw [pure_bind]
    exact hx script hs
  · exact fun _ hs => hs

end Keeps

namespace KeptByRequests

variable {host : Host} {only : Request → Prop} {I : State → Prop} (h : KeptByRequests host only I)

include h

theorem parse (source : String) (path : Option String) : Keeps I (Session.parse source path) := by
  refine Keeps.bind Keeps.get fun s => ?_
  have accepted := Keeps.accept h.trace (o := parseText s.sources s.unit path source) (x := pure)
    fun _ _ => Keeps.pure _
  rwa [bind_pure] at accepted

theorem execute {script : Script} (hs : Stmt.closedAll false script.statements = true) :
    Keeps I (Session.execute host script) :=
  Keeps.lift (h.runScript script hs)

theorem run (source : String) (path : Option String) : Keeps I (Session.run host source path) := by
  unfold Session.run Session.parse
  simp only [bind_assoc]
  exact Keeps.bind Keeps.get fun _ => Keeps.accept h.trace fun _ hs =>
    h.execute (closedAll_of_parseText hs)

theorem runFile (path : String) : Keeps I (Session.runFile host path) :=
  Keeps.bind Keeps.get fun _ => Keeps.accept h.trace fun _ hs =>
    h.execute (closedAll_of_parseFile hs)

theorem callNamed (name : String) (args : List Cell) :
    Keeps I (Session.callNamed host name args) := by
  refine Keeps.lift fun _ hs => ?_
  rw [Exec.ends_get_bind]
  split
  · exact hs
  · exact h.callFromHost _ _ _ hs

end KeptByRequests

namespace Invariant

variable {host : Host} {only : Request → Prop} {I : State → Prop} (h : Invariant host only I)

include h

theorem perform {r : Request} {s : Session} (hs : I s.state) (hr : r.Allowed s) (ho : only r) :
    I (finalState (r.perform host s)).state := by
  cases r with
  | parse source path => exact (h.parse source path).discard s hs
  | run source path => exact (h.run source path).discard s hs
  | runFile path => exact (h.runFile path).discard s hs
  | execute script => exact (h.execute hr.closed).discard s hs
  | call name args => exact (h.callNamed name args).discard s hs
  | callCell c args => exact (Keeps.lift (h.callFromHost c args)).discard s hs
  | text c => exact (Keeps.lift (h.text c)).discard s hs
  | addItem name item => exact Keeps.lift (h.addItem name item hr) s hs
  | addCell name c => exact Keeps.lift (h.addCell name c ho) s hs
  | addFunction name f => exact Keeps.lift (h.addFunction name f) s hs
  | addType t => exact Keeps.lift (h.addType t hr) s hs
  | reset => exact (Keeps.bind Keeps.get fun t => Keeps.lift (h.fresh t.standardLibrary)) s hs
  | pushGlobal => exact Keeps.lift h.pushGlobal s hs
  | popGlobal =>
    change I (finalState (lift Exec.popGlobal s)).state
    rw [finalState_lift]
    exact h.popGlobal s.state hs hr
  | frames n => exact Keeps.lift (h.frames n) s hs

/-- An invariant holds of all reachable sessions. -/
theorem reachable {s : Session} (hs : Reachable host only s) : I s.state := by
  induction hs with
  | create maxCallDepth standardLibrary tracing sources => exact h.create _ _ _ _
  | request r _ hr ho ih => exact h.perform ih hr ho

end Invariant

end Session

end CellScript
