import CellScript.Proofs.Binding.Declared
import CellScript.Proofs.Binding.Members
import CellScript.Proofs.Binding.Reading
import CellScript.Proofs.Parse.Formed

/-!
# Missing names and members

A statement that is nothing but a name or a member, or an update, an increment or a decrement of
one, fails at a missing operand and changes nothing. A missing location it makes, and what it made
stays, also where the statement fails afterwards. The parser reads all of these places as locations.

* `Stmt.Visits.executed`: such a statement evaluates its place first;
* `State.makesGlobally`: the scope in which a new name is made;
* `Exec.MissesName`, `Exec.MissesMember`: what it comes to where the place is missing;
* `missing_places_made_at_locations`: this is so in every state, for every amount of fuel that is
  enough to reach the place, and names are made nowhere else.
-/

namespace CellScript

open Exec (failure?)

/-! ## What is done with a place -/

/-- A statement about a place evaluates the place and goes on with its cell, by steps that all
logics of programs know. -/
theorem Stmt.Visits.executed {place : Expr} {depth : Nat} {st : Stmt} (h : st.Visits place depth)
    (host : Host) (k : Nat) :
    ∃ rest : Cell → Exec Unit,
      (Interp.withFuel host (k + depth + 2)).execute st =
        (Interp.withFuel host (k + 1)).evaluate place >>= rest ∧
      ∀ {F : Fragment} (L : NodeLogic F),
        L.AgreeOn .any (Interp.withFuel host (k + 1)) (Interp.withFuel host (k + 1)) →
        ∀ c, L.Holds (rest c) (rest c) := by
  cases h with
  | bare => exact ⟨_, rfl, fun L _ _ => L.holds_pure _⟩
  | update op value line =>
    refine ⟨_, rfl, fun L on c => ?_⟩
    have evaluated := on.evaluate (e := value) trivial
    exact evaluated.bind fun v => (on.applyArithmetic op c v _).bind fun d => L.assign c d _
  | preIncrement direction line =>
    refine ⟨_, bind_assoc _ _ _, fun L _ c => ?_⟩
    have counted := L.increment c direction.delta (some line)
    exact CellLogic.Holds.bind (counted.bind fun _ => L.holds_pure c) fun _ => L.holds_pure _
  | postIncrement direction line =>
    refine ⟨_, bind_assoc _ _ _, fun L _ c => ?_⟩
    have counted := L.increment c direction.delta (some line)
    have copied : L.Holds (Exec.copyCell c) (Exec.copyCell c) := L.copyCell c
    exact CellLogic.Holds.bind (copied.bind fun old => counted.bind fun _ => L.holds_pure old)
      fun _ => L.holds_pure _

/-! ## Places that are missing -/

/-- Whether a new name is made in the top global scope: it is declared as global, or there are no
local scopes. Else it is made in the innermost of these. -/
def State.makesGlobally (s : State) (name : String) : Bool :=
  s.locals.isEmpty || s.isDeclaredGlobal name

/-- The cell that a name is bound to in the top global scope or in the innermost local one. -/
def State.innermost? (s : State) (globally : Bool) (name : String) : Option Cell :=
  if globally then s.globalAt? 0 name else s.localAt? 0 name

theorem State.Steady.innermost? {spared : String → Prop} {s t : State} (h : s.Steady spared t)
    {globally : Bool} {name : String} (hs : (s.innermost? globally name).isSome = true) :
    (t.innermost? globally name).isSome = true := by
  obtain ⟨c, hc⟩ := Option.isSome_iff_exists.1 hs
  refine Option.isSome_iff_exists.2 ⟨c, ?_⟩
  cases globally with
  | true => exact h.globalAt? hc
  | false => exact h.localAt? hc

namespace Exec

/-- What a step about a missing name comes to. -/
def MissesName (x : Exec Unit) (name : String) (line : Nat) (s : State) : Use → Prop
  | .operand => x s = .error (.script (.unknownIdentifier name) (some line)) s
  | .location => s.globals ≠ [] →
    ((finalState (x s)).innermost? (s.makesGlobally name) name).isSome = true

/-- What a step about a missing member of an object comes to, where `t` is the state in which the
member is looked for. -/
def MissesMember (x : Exec Unit) (r : ObjectRef) (name : String) (line : Nat) (s t : State) :
    Use → Prop
  | .operand => x s = .error (.script (.unknownField name) (some line)) t
  | .location => r.index < t.store.objects.size →
    ((finalState (x s)).store.object r).members.contains name = true

/-- Where there is a global scope, a missing name can be made. -/
theorem addName_binds {s : State} (hs : s.globals ≠ []) {name : String}
    (h : s.find? name = none) (c : Cell) (line : Option Nat) :
    (addName name c line).Ends s
      (fun _ t => (t.innermost? (s.makesGlobally name) name).isSome = true) fun _ _ => False := by
  refine .addName (fun nonempty undeclared => ?_) fun globally => ?_
  · refine .addLocal (fun _ => ?_) nonempty
    obtain ⟨top, below, hl⟩ := List.exists_cons_of_ne_nil nonempty
    have locally : s.makesGlobally name = false := by simp [State.makesGlobally, hl, undeclared]
    simp [locally, State.innermost?, State.localAt?, State.mapTop, hl, Scope.add,
      Bindings.find?_insert]
  · have missing : s.findGlobal? name = none := by
      unfold State.find? at h
      rwa [State.findLocal?_eq_none h] at h
    have here : s.makesGlobally name = true := globally
    refine .addGlobal (fun top below _ _ => ?_) fun _ failed => failed.elim (by simp [missing]) hs
    simp [here, State.innermost?, State.globalAt?, Scope.add, Bindings.find?_insert]

theorem newName_binds {s : State} (hs : s.globals ≠ []) {name : String}
    (h : s.find? name = none) (line : Option Nat) :
    (newName name line).Ends s
      (fun _ t => (t.innermost? (s.makesGlobally name) name).isSome = true) fun _ _ => False := by
  let u : State := { s with store := (s.store.alloc .undefined).2 }
  exact .newName (addName_binds (s := u) hs h _ line)

theorem evaluateMember_of_none {s : State} {c : Cell} {r : ObjectRef} {name : String}
    (hc : s.store.get c = .object r) (h : (s.store.object r).members.find? name = none) (use : Use)
    (line : Nat) : evaluateMember c name use line s =
      match use with
      | .operand => .error (.script (.unknownField name) (some line)) s
      | .location => newMember c name (some line) s := by
  have looked (k : Option Cell → Exec Cell) : (member? c name >>= k) s = k none s := by
    have reading (f : Value → Exec (Option Cell)) :
        (Exec.value c >>= f) s = f (s.store.get c) s := rfl
    have missing : member? c name s = .ok none s := by
      unfold member?
      rw [reading, hc, ← h]
      rfl
    exact bind_of_ok missing
  unfold evaluateMember
  rw [looked]
  cases use <;> rfl

/-- A missing member of an object can be made. -/
theorem newMember_contains {s : State} {c : Cell} {r : ObjectRef} (hc : s.store.get c = .object r)
    (hr : r.index < s.store.objects.size) (name : String) (line : Option Nat) :
    (newMember c name line).Ends s
      (fun _ t => (t.store.object r).members.contains name = true) fun _ _ => False := by
  let u : State := { s with store := (s.store.alloc .undefined).2 }
  have same : u.store.get c = .object r := by
    have inRange : c.index < s.store.cells.size := by
      refine Nat.lt_of_not_le fun outside => ?_
      simp [Store.get, Array.getElem?_eq_none outside] at hc
    exact (s.store.get_alloc_of_lt .undefined c inRange).trans hc
  refine Ends.bind (Q := fun _ t => t = u) rfl fun d t ht => ?_
  subst ht
  have added : addMember c name d line u =
      .ok () { u with store := u.store.setMember r name d } := by
    have reading (f : Value → Exec Unit) : (Exec.value c >>= f) u = f (u.store.get c) u := rfl
    unfold addMember
    rw [reading, same]
    rfl
  refine Ends.bind (Q := fun _ t => (t.store.object r).members.contains name = true) ?_
    fun _ _ bound => bound
  unfold Ends
  rw [added]
  have size : r.index < u.store.objects.size := hr
  simp [Store.object, Store.setMember, Array.getElem?_modify, Array.getElem?_eq_getElem size,
    Bindings.contains, Bindings.find?_insert]

end Exec

/-! ## Statements about missing places -/

namespace Stmt.Visits

variable {host : Host} {name : String} {use : Use} {line depth : Nat} {st : Stmt}

theorem missesName (hh : Host.Steady (fun _ => False) host) (k : Nat)
    (h : st.Visits (.name name use line) depth) {s : State} (hs : s.find? name = none) :
    ((Interp.withFuel host (k + depth + 2)).execute st).MissesName name line s use := by
  obtain ⟨rest, executed, steps⟩ := h.executed host k
  have evaluated := Exec.evaluateName_of_none hs use line
  have place : (Interp.withFuel host (k + 1)).evaluate (.name name use line) =
      Exec.evaluateName name use line := rfl
  rw [executed, place]
  cases use with
  | operand => exact Exec.bind_of_error evaluated
  | location =>
    intro hg
    let Bound (t : State) : Prop := (t.innermost? (s.makesGlobally name) name).isSome = true
    have named : (Exec.evaluateName name .location line).Ends s (fun _ t => Bound t)
        fun _ t => Bound t := by
      unfold Exec.Ends
      rw [evaluated]
      exact (Exec.newName_binds hg hs (some line)).mono (fun _ _ h => h) fun _ _ h => h.elim
    refine (Exec.Ends.bind named fun c t bound => ?_).final
    -- What has been bound stays bound, whatever the statement goes on to do.
    have on := (Interp.outlasts hh (Nat.le_refl (k + 1))).1
    have steady := (steps outlasting.nodes on c).steady t trivial
    exact steady.mono (fun _ _ h => h.2.innermost? bound) fun _ _ h => h.innermost? bound

theorem missesMember (hr : host.Retains) (k : Nat) {target : Expr}
    (h : st.Visits (.member target name use line) depth) {s t : State} {c : Cell} {r : ObjectRef}
    (ht : (Interp.withFuel host k).evaluate target s = .ok c t) (hc : t.store.get c = .object r)
    (hm : (t.store.object r).members.find? name = none) :
    ((Interp.withFuel host (k + depth + 2)).execute st).MissesMember r name line s t use := by
  obtain ⟨rest, executed, steps⟩ := h.executed host k
  have evaluated := Exec.evaluateMember_of_none hc hm use line
  have place : (Interp.withFuel host (k + 1)).evaluate (.member target name use line) s =
      Exec.evaluateMember c name use line t := Exec.bind_of_ok ht
  rw [executed]
  cases use with
  | operand => exact Exec.bind_of_error (place.trans evaluated)
  | location =>
    intro hsize
    let Bound (t : State) : Prop := (t.store.object r).members.contains name = true
    have named : ((Interp.withFuel host (k + 1)).evaluate (.member target name .location line)).Ends
        s (fun _ t => Bound t) fun _ t => Bound t := by
      unfold Exec.Ends
      rw [place, evaluated]
      exact (Exec.newMember_contains hc hsize name (some line)).mono (fun _ _ h => h)
        fun _ _ h => h.elim
    refine (Exec.Ends.bind named fun c u bound => ?_).final
    have kept := steps ProgramOrder.growth.logic (retains_withFuel hr (k + 1)) c u trivial
    exact kept.mono (fun _ _ h => h.2 r name bound) fun _ _ h => h r name bound

end Stmt.Visits

/-! ## Where names are made -/

/-- The reading step gives up, or the step itself does the same and leaves all names as they are. -/
def Exec.MakesNoNames {α : Type} (x reading : Exec α) (s : State) : Prop :=
  failure? (reading s) = some .emptyStack ∨
    reading s = x s ∧ s.SameNames (finalState (x s))

theorem Exec.Bindless.makesNoNames {α : Type} {Q : α → Prop} {x reading : Exec α}
    (h : Exec.Bindless Q reading x) (s : State) : Exec.MakesNoNames x reading s := by
  refine (h.framed.same s trivial).imp id fun same => ⟨same, ?_⟩
  have steady := ((h.framed.steady s trivial).mono (fun _ _ h => h.2) fun _ _ h => h).final
  rw [← same]
  exact steady.sameNames (h.inner s).final

/-- An interpreter makes names only where another one, which reads, gives up. -/
structure Interp.MakesNoNames (p reading : Interp) (s : State) : Prop where
  evaluate (e : Expr) : Exec.MakesNoNames (p.evaluate e) (reading.evaluate e) s
  execute (st : Stmt) : Exec.MakesNoNames (p.execute st) (reading.execute st) s
  run (ss : List Stmt) : Exec.MakesNoNames (p.run ss) (reading.run ss) s
  invoke (f : Callable) (owner : Option ObjectRef) (args : List Cell) (line : Option Nat) :
    Exec.MakesNoNames (p.invoke f owner args line) (reading.invoke f owner args line) s
  text (c : Cell) (line : Option Nat) :
    Exec.MakesNoNames (Exec.fullText p c line) (Exec.fullText reading c line) s

theorem Interp.reading_makesNoNames {host : Host} (hh : Host.Steady (fun _ => True) host)
    (fuel : Nat) (s : State) :
    (Interp.withFuel host fuel).MakesNoNames (Interp.reading host fuel) s := by
  have agree := (agree_reading hh fuel).1
  rw [← Interp.withFuel_eq_tied] at agree
  have anyOne (st : Stmt) : Nodes.any.stmt false st := trivial
  have any (ss : List Stmt) : Nodes.any.all false ss := fun _ _ => trivial
  exact {
    evaluate := fun e => (agree.evaluate (e := e) trivial).makesNoNames s
    execute := fun st => (agree.execute (anyOne st)).makesNoNames s
    run := fun ss => (agree.run (any ss)).makesNoNames s
    invoke := fun f owner args line =>
      (agree.invoke (f := f) owner args line trivial).makesNoNames s
    text := fun c line => (agree.fullText c line trivial).makesNoNames s }

/-! ## All of it -/

/-- A statement that is nothing but a name or a member of an object, or an update, an increment or a
decrement of one, fails with the unknown name or member and changes nothing exactly if the missing
place is an operand. A location is bound afterwards, whether the statement completes or fails: a
name in the scope in which new names are made, and a member in its object. In parsed scripts these
places are locations, as are the targets of assignments, and all others are operands. Names are made
at missing locations only: a run that the reading interpreter does not give up leaves the names of
all scopes as they were. -/
theorem missing_places_made_at_locations {host : Host} (hh : Host.Steady (fun _ => True) host)
    (hr : host.Retains) (k : Nat) :
    (∀ (name : String) (use : Use) (line depth : Nat) (st : Stmt) (s : State),
      st.Visits (.name name use line) depth → s.find? name = none →
      ((Interp.withFuel host (k + depth + 2)).execute st).MissesName name line s use) ∧
    (∀ (target : Expr) (name : String) (use : Use) (line depth : Nat) (st : Stmt) (s t : State)
      (c : Cell) (r : ObjectRef), st.Visits (.member target name use line) depth →
      (Interp.withFuel host k).evaluate target s = .ok c t → t.store.get c = .object r →
      (t.store.object r).members.find? name = none →
      ((Interp.withFuel host (k + depth + 2)).execute st).MissesMember r name line s t use) ∧
    (∀ (script : Script) (st : Stmt), script.Parsed → st.Among script.statements →
      st.placed = true ∧
        ∀ (place : Expr) (depth : Nat), st.Visits place depth → place.placed .location = true) ∧
    ∀ s, (Interp.withFuel host k).MakesNoNames (Interp.reading host k) s := by
  have steady : Host.Steady (fun _ => False) host :=
    fun name s => (hh name s).mono fun _ h => h.elim
  refine ⟨?_, ?_, ?_, Interp.reading_makesNoNames hh k⟩
  · intro name use line depth st s visits missing
    exact visits.missesName steady k missing
  · intro target name use line depth st s t c r visits evaluated object missing
    exact visits.missesMember hr k evaluated object missing
  · intro script st parsed among
    have placed := among.placed parsed.placed
    exact ⟨placed, fun place depth visits => visits.placed placed⟩

/-- A missing name that a failing update leaves bound, and a missing member of an object that is
read. -/
theorem missing_places_made_at_locations_both :
    let host : Host := fun name => do Exec.print name; return none
    let s := (State.initial 200).restart
    let store : Store := ((Store.empty.allocObject "T").2.alloc (.object ⟨0⟩)).2
    let t : State := { s with store, globals := [Scope.empty.add "t" ⟨0⟩] }
    let updated : Stmt := .update .add (.name "x" .location 1) (.integer 1 1) 1
    let read : Stmt := .expression (.member (.name "t" .operand 1) "m" .operand 1)
    Host.Steady (fun _ => True) host ∧ host.Retains ∧ s.find? "x" = none ∧
      failure? ((Interp.withFuel host 3).execute updated s) =
        some (.script (.unsupported .undefined "+" .integer) (some 1)) ∧
      ((finalState ((Interp.withFuel host 3).execute updated s)).globalAt? 0 "x").isSome = true ∧
      (Interp.withFuel host 3).execute read t =
        .error (.script (.unknownField "m") (some 1)) t := by
  intro host s store t updated read
  have steady : Host.Steady (fun _ => True) host := fun _ _ => .of_eq rfl rfl rfl
  have retains : host.Retains := fun _ _ => .of_objects rfl
  obtain ⟨names, members, -⟩ := missing_places_made_at_locations steady retains 1
  have missing : s.find? "x" = none := by decide
  have fails : failure? ((Interp.withFuel host 3).execute updated s) =
      some (.script (.unsupported .undefined "+" .integer) (some 1)) := by cbv
  have bound := names "x" .location 1 0 updated s (.update .add (.integer 1 1) 1) missing
    (by simp [s, State.restart])
  exact ⟨steady, retains, missing, fails, bound,
    members (.name "t" .operand 1) "m" .operand 1 0 read t t ⟨0⟩ ⟨0⟩ .bare rfl rfl rfl⟩

/-- `x; return 1;` -/
def readsMissing : Script :=
  ⟨[.expression (.name "x" .location 1), .return (some (.integer 1 1)) 1]⟩

theorem parsed_readsMissing : readsMissing.Parsed :=
  .inl ⟨⟨⟨[], "/"⟩, [], []⟩, 0, none, "x; return 1;", by cbv⟩

/-- A script whose first statement is nothing but a missing name completes, and the name is bound
afterwards. -/
theorem bare_missing_name_made :
    let host : Host := fun _ => return none
    let s := (State.initial 200).restart
    readsMissing.Parsed ∧ s.find? "x" = none ∧
      Exec.result? ((do Exec.value (← Exec.runScript (Interp.withFuel host 9) readsMissing)) s) =
        some (.integer 1) ∧
      (finalState (Exec.runScript (Interp.withFuel host 9) readsMissing s)).binds "x" = true := by
  intro host s
  exact ⟨parsed_readsMissing, by decide, by cbv, by cbv⟩

end CellScript
