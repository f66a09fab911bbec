import CellScript.Proofs.Alongside
import CellScript.Proofs.Binding.Holding

/-!
# Names and members in step

A method is run in a scope that binds the members of its object by their names, and so a bare name
leads to the same cell as the member. But the scope is a copy: it is made when the method is called,
and what the object gains afterwards is not in it.

A call is remembered by its object, by where the scope is, and by the members that the scope was
made of. These members stay in step with their names as long as the method is run, whatever is done
to the object in the meantime: the members stay bound (`Binding.Holding`), and so do the names
(`Binding.Framing`).

* `MethodCall.InStep`: bare names and members lead to the same cells, wherever the search for the
  name gets as far as the scope of the members;
* `Interp.inStep`: the interpreter that gives up where an expression, a statement, a call or a text
  begins or ends while the current call is out of step;
* `MethodCall.Anchored`: what keeps a call in step;
* `watching`, `watching_inStep`: nothing in a run gets its call out of step.
-/

namespace CellScript

open Exec (Along Alongside Layered Inward)

/-! ## Calls of methods -/

/-- A call of a method that is going on. -/
structure MethodCall where
  object : ObjectRef
  /-- How many local scopes there are below the scope of the object's members. -/
  height : Nat
  /-- The members of the object when this scope was made. -/
  members : Bindings Cell

/-- The call that begins, if a function is called as a method. The scope of the members is put on
that of the arguments. -/
def State.beginning (s : State) (owner : Option ObjectRef) : Option MethodCall :=
  owner.map fun r => ⟨r, s.locals.length + 1, (s.store.object r).members⟩

/-- The search for a name goes past a local scope: it is that of a block, and it neither binds the
name nor declares it as global. -/
structure Frame.Passes (f : Frame) (name : String) : Prop where
  linked : f.linked = true
  unbound : f.scope.has name = false
  undeclared : f.scope.globalNames.contains name = false

/-- The search for a name gets as far as the local scope that has the given number of scopes below
it, and the name is not declared as global there. -/
def State.Reaches (s : State) (height : Nat) (name : String) : Prop :=
  ∃ inner frame below, s.locals = inner ++ frame :: below ∧ below.length = height ∧
    (∀ f ∈ inner, f.Passes name) ∧ frame.scope.globalNames.contains name = false

/-- The object that `this` stands for. -/
def State.this? (s : State) : Option ObjectRef := do
  match s.store.get (← s.find? "this") with
  | .object r => some r
  | _ => none

/-- What a member of `this` is evaluated to. -/
def Exec.thisMember (name : String) (use : Use) (line : Nat) : Exec Cell := do
  evaluateMember (← evaluateName "this" .operand line) name use line

/-- The bare name is evaluated to the cell of the object's member, and so is the member of `this`,
unless something else has been assigned to `this`. -/
def State.Agrees (s : State) (r : ObjectRef) (name : String) : Prop :=
  ∃ c, (s.store.object r).members.find? name = some c ∧ ∀ use line,
    Exec.evaluateName name use line s = .ok c s ∧
      (s.this? = some r → Exec.thisMember name use line s = .ok c s)

/-- The members that the object had when the call began are in step with their names. -/
def MethodCall.InStep (a : MethodCall) (s : State) : Prop :=
  ∀ name, a.members.contains name = true → s.Reaches a.height name → s.Agrees a.object name

namespace Exec

theorem evaluateMember_of_some {s : State} {owner : Cell} {r : ObjectRef} {name : String} {c : Cell}
    (ho : s.store.get owner = .object r) (h : (s.store.object r).members.find? name = some c)
    (use : Use) (line : Nat) : evaluateMember owner name use line s = .ok c s := by
  have member : member? owner name s = .ok (some c) s := by
    unfold member?
    rw [value_bind_apply, ho, ← h]
    rfl
  exact bind_of_ok member

theorem thisMember_of_some {s : State} {r : ObjectRef} {name : String} {c : Cell}
    (ht : s.this? = some r) (h : (s.store.object r).members.find? name = some c) (use : Use)
    (line : Nat) : thisMember name use line s = .ok c s := by
  obtain ⟨t, found, stands⟩ := Option.bind_eq_some_iff.1 ht
  have owner : s.store.get t = .object r := by
    split at stands
    · next q same => rw [same, Option.some.inj stands]
    · cases stands
  unfold thisMember
  rw [bind_of_ok (evaluateName_of_some found .operand line)]
  exact evaluateMember_of_some owner h use line

end Exec

/-- Two look-ups are enough. -/
theorem State.Agrees.of_found {s : State} {r : ObjectRef} {name : String} {c : Cell}
    (bare : s.find? name = some c) (member : (s.store.object r).members.find? name = some c) :
    s.Agrees r name :=
  ⟨c, member, fun use line => ⟨Exec.evaluateName_of_some bare use line,
    fun ht => Exec.thisMember_of_some ht member use line⟩⟩

/-! ## What keeps a call in step -/

/-- The object is one of the first `N`, the members are still bound to their cells, and the scope
that was made of them still binds their names to these. -/
structure MethodCall.Anchored (a : MethodCall) (N : Nat) (s : State) : Prop where
  made (name : String) : a.members.contains name = true → a.object.index < N
  members : a.members.Extends (s.store.object a.object).members
  scope : ∃ inner frame below, s.locals = inner ++ frame :: below ∧ below.length = a.height ∧
    a.members.Extends frame.scope.items

theorem Bindings.contains_of_find? {α : Type} {b : Bindings α} {name : String} {a : α}
    (h : b.find? name = some a) : b.contains name = true := by
  simp [contains, h]

/-- A search that goes past the inner scopes ends where the name is bound. -/
theorem Scope.findIn_chainOf {name : String} {c : Cell} {inner : List Frame} {frame : Frame}
    {below : List Frame} (passes : ∀ f ∈ inner, f.Passes name)
    (undeclared : frame.scope.globalNames.contains name = false)
    (bound : frame.scope.items.find? name = some c) :
    findIn name (State.chainOf (inner ++ frame :: below)) = some c := by
  induction inner with
  | nil => simp only [List.nil_append, State.chainOf, findIn, undeclared, bound]; rfl
  | cons f inner ih =>
    obtain ⟨linked, unbound, passed⟩ := passes f List.mem_cons_self
    have free : f.scope.items.find? name = none := by
      simpa [has, Bindings.contains] using unbound
    simp only [List.cons_append, State.chainOf, linked, if_true, findIn, passed, free]
    exact ih fun f hf => passes f (List.mem_cons_of_mem _ hf)

namespace MethodCall.Anchored

variable {a : MethodCall} {N : Nat} {s t : State}

/-- A call that is anchored is in step. -/
theorem inStep (h : a.Anchored N s) : a.InStep s := by
  rintro name has ⟨inner, frame, below, hl, height, passes, undeclared⟩
  obtain ⟨c, hc⟩ := Option.isSome_iff_exists.1 has
  obtain ⟨inner', frame', below', hl', height', extends'⟩ := h.scope
  -- There is only one local scope with so many others below it.
  have same : inner = inner' ∧ frame :: below = frame' :: below' :=
    List.append_inj' (hl.symm.trans hl') (by simp [height, height'])
  obtain ⟨rfl, rfl⟩ := List.cons.inj same.2
  have found : s.findLocal? name = some c := by
    unfold State.findLocal? State.chain
    rw [hl]
    exact Scope.findIn_chainOf passes undeclared (extends' name c hc)
  refine .of_found (c := c) ?_ (h.members name c hc)
  unfold State.find?
  rw [found]

/-- Inner scopes may be opened. -/
theorem inward (h : a.Anchored N s) (ho : t.store.objects = s.store.objects) (opened : List Frame)
    (hl : t.locals = opened ++ s.locals) : a.Anchored N t where
  made := h.made
  members := by
    unfold Store.object
    rw [ho]
    exact h.members
  scope := by
    obtain ⟨inner, frame, below, locals, rest⟩ := h.scope
    exact ⟨opened ++ inner, frame, below, by rw [hl, locals, List.append_assoc], rest⟩

/-- Members and names stay bound. -/
theorem kept (h : a.Anchored N s) (hm : s.HoldsMembers N t)
    (hs : s.Steady (fun _ => False) t) : a.Anchored N t where
  made := h.made
  members name c hc :=
    hm.members a.object (h.made name (Bindings.contains_of_find? hc)) name c (h.members name c hc)
  scope := by
    obtain ⟨inner, frame, below, locals, height, bound⟩ := h.scope
    have top := hs.locals
    rw [locals] at top
    cases inner with
    | nil =>
      obtain ⟨g, hl, hg⟩ := top.of_cons
      exact ⟨[], g, below, hl, height, bound.trans hg.scope.items⟩
    | cons f inner =>
      obtain ⟨g, hl, -⟩ := top.of_cons
      exact ⟨g :: inner, frame, below, hl, height, bound⟩

end MethodCall.Anchored

/-- The members of the first `N` objects are to stay bound, and the current call is anchored. -/
structure State.Ready (call : Option MethodCall) (N : Nat) (s : State) : Prop where
  holds : (Layers.holding N).From s
  anchored : ∀ a ∈ call, a.Anchored N s

/-- The current call, if it is one of a method, is in step. -/
def State.InStep (call : Option MethodCall) (s : State) : Prop := ∀ a ∈ call, a.InStep s

namespace State.Ready

variable {call : Option MethodCall} {N : Nat} {s t : State}

theorem inStep (h : s.Ready call N) : s.InStep call := fun a ha => (h.anchored a ha).inStep

theorem inward (h : s.Ready call N) (ho : t.store.objects = s.store.objects)
    (opened : List Frame) (hl : t.locals = opened ++ s.locals) : t.Ready call N where
  holds := (Layers.holding N).keeps h.holds (.of_eq ho)
  anchored a ha := (h.anchored a ha).inward ho opened hl

theorem kept (h : s.Ready call N) (ht : (Layers.holding N).steadily.Le s t) : t.Ready call N where
  holds := (Layers.holding N).keeps h.holds ht.1.1
  anchored a ha := (h.anchored a ha).kept ht.1.1 ht.2

end State.Ready

/-- Members stay bound and scopes steady, and so the current call stays anchored. -/
def PropertyOrder.ready (call : Option MethodCall) (N : Nat) : PropertyOrder where
  toQuietOrder := (Layers.holding N).steadily.toQuietOrder
  Holds := State.Ready call N
  follows hs := hs.holds
  kept hs ht := hs.kept ht

/-! ## Watched steps -/

namespace Exec

variable {α β : Type}

/-- The second step leaves members bound and the scopes steady, and the first one does the same,
begun where the current call is anchored. -/
abbrev Watched (call : Option MethodCall) (N : Nat) (Q : α → Prop) (x y : Exec α) : Prop :=
  Alongside (.ready call N) Q x y

/-- The same of steps that are begun in a scope that has just been opened. -/
structure WatchedInward (call : Option MethodCall) (N : Nat) (x y : Exec α) : Prop where
  inward : Inward (.holding N) True y
  same {s : State} : s.Ready call N → s.Opened → x s = y s

namespace Watched

variable {call : Option MethodCall} {N : Nat} {x y : Exec α}

theorem inward (h : Watched call N (fun _ => True) x y) : WatchedInward call N x y :=
  ⟨Layered.inward h.along True, fun hs _ => h.same hs⟩

theorem prepared {x y : Exec Unit} (body : List Stmt) (h : Watched call N (fun _ => True) x y) :
    WatchedInward call N (prepareAll body >>= fun _ => x) (prepareAll body >>= fun _ => y) where
  inward := Layered.prepared True body h.along
  same {s} hs ho := by
    have outer := Layers.outer (Layers.prepareAll (Y := .holding N) body) s hs.holds
    refine Ends.bind_congr (((prepareAll_ends body (.inr ho)).and outer).mono ?_ fun _ _ h => h)
    rintro _ t ⟨declared, -, le⟩
    exact h.same (hs.kept ⟨⟨le, trivial⟩, declared.steady.mono fun _ _ => ho⟩)

end Watched

namespace WatchedInward

variable {call : Option MethodCall} {N : Nat}

theorem takeResult {x y : Exec Unit} (h : WatchedInward call N x y) :
    WatchedInward call N (takeResult x) (takeResult y) where
  inward := h.inward.takeResult
  same {s} hs ho := by
    let c := s.store.alloc .undefined
    let u : State := { s with store := c.2, returns := c.1 :: s.returns }
    have begun : u.Ready call N := hs.inward rfl [] rfl
    exact bind_congr_left (h.same begun (ho.congr rfl)) _

theorem inBlock {x y : Exec Unit} (h : WatchedInward call N x y) :
    Watched call N (fun _ => True) (inBlock x) (inBlock y) where
  along := h.inward.inBlock
  same {s} hs := inBlock_congr (h.same (hs.inward rfl [_] rfl) s.opened_block)

theorem fillObject {x y : Exec Unit} (h : WatchedInward call N x y) (obj : Cell) {r : ObjectRef}
    (hr : N ≤ r.index) :
    Watched call N (fun _ => True) (fillObject obj r x) (fillObject obj r y) where
  along := Layered.fillObject (ProgramOrder.holding N).promotes h.inward obj hr
  same {s} hs := by
    have scope := (Along.memberScope (R := (Layers.holding N).steadily.toQuietOrder) r s hs.holds)
    refine Ends.bind_congr (scope.mono (fun members t ht => ?_) fun _ _ h => h)
    have ready : (t.realizing obj members).Ready call N := (hs.kept ht.2).inward rfl [_] rfl
    exact bind_congr_left (inRealization_congr (h.same ready (t.opened_realizing obj ht.1))) _

end WatchedInward

/-! ## Calls -/

/-- The scope of the members of a method's object binds them all. -/
theorem ownerScope_ends (owner : Option ObjectRef) {s : State} (hs : s.Distinct) :
    (ownerScope owner).Ends s (fun members _ => ∀ r ∈ owner, ∃ m ∈ members,
      (s.store.object r).members.Extends m.items) fun _ _ => False := by
  cases owner with
  | none => exact fun r hr => by cases hr
  | some r =>
    intro q hq
    cases hq
    exact ⟨_, rfl, Scope.ofMembers_find? (hs r) _⟩

/-- Where its scopes have been entered, a call is anchored. -/
theorem ready_entered {s t : State} {owner : Option ObjectRef} {scope : Scope}
    {members : Option Scope} (hs : s.Distinct) (ho : t.store.objects = s.store.objects)
    (hl : t.locals = s.locals) (hm : ∀ r ∈ owner, ∃ m ∈ members,
      (s.store.object r).members.Extends m.items) :
    (t.entered scope members).Ready (s.beginning owner) s.store.objects.size where
  holds := by
    have same : (t.entered scope members).store.objects = s.store.objects := by
      cases members <;> exact ho
    exact ⟨Nat.le_of_eq (congrArg Array.size same).symm, hs.congr same⟩
  anchored a ha := by
    obtain ⟨r, hr, rfl⟩ := Option.map_eq_some_iff.1 ha
    obtain ⟨m, rfl, bound⟩ := hm r hr
    refine ⟨fun name has => Nat.lt_of_not_le fun outside => ?_, ?_, [], ⟨m, true⟩,
      ⟨scope, false⟩ :: s.locals, ?_, rfl, bound⟩
    · simp [Bindings.contains, s.store.find?_of_le outside] at has
    · change Bindings.Extends _ (t.store.object r).members
      unfold Store.object
      rw [ho]
      exact .refl _
    · simp [State.entered, State.pushCall, State.pushFunctionScope, State.pushBlockScope, hl]

/-- Where bodies do the same that are watched from the beginning of the call on, calls do. -/
theorem WatchedInward.inCall {s : State} {owner : Option ObjectRef} {x y : Exec Cell}
    (h : WatchedInward (s.beginning owner) s.store.objects.size x y) (hs : s.Distinct)
    (parameters : List String) (args : List Cell) (line : Option Nat) :
    inCall parameters owner args line x s = inCall parameters owner args line y s := by
  rw [inCall_eq_activate, inCall_eq_activate]
  have owned := (Along.ownerScope (R := .least) owner s trivial).and (ownerScope_ends owner hs)
  refine Ends.bind_congr (E := fun _ _ => True) (owned.mono ?_ fun _ _ _ => trivial)
  rintro members t ⟨⟨plain, quiet⟩, bound⟩
  refine Ends.bind_congr ((Along.argumentScope (R := .least) parameters args line t trivial).mono ?_
    fun _ _ h => h)
  rintro scope u ⟨bare, later⟩
  have calm : s.Quiet u := quiet.trans later
  exact activate_congr (h.same (ready_entered hs calm.objects calm.locals bound)
    (u.opened_entered bare plain))

end Exec

/-! ## The logic -/

open Exec (Watched WatchedInward)

/-- Being watched is a logic of all programs. -/
def watching (call : Option MethodCall) (N : Nat) : NodeLogic (.declaring True) where
  toCellLogic := (PropertyOrder.ready call N).cells (holding N).addAnonymous
  Fresh _ _ x y := WatchedInward call N x y
  Made r := N ≤ r.index
  jumps _ h := h
  evaluateName name use line h := .self ((holding N).evaluateName name use line h)
  fresh := Watched.inward
  prepared {_ body _ _} _ h := Watched.prepared body h
  takeResult := .takeResult
  inBlock h := h.inBlock
  makeObject t ht := .self ((holding N).makeObject t ht)
  evaluateMember owner name use line := .self ((holding N).evaluateMember owner name use line)
  fillObject obj _ hr h := h.fillObject obj hr
  declareGlobal name h := .self ((holding N).declareGlobal name h)
  loopBefore limit _ := Alongside.loopParts.loopBefore limit
  loopAfter limit _ := Alongside.loopParts.loopAfter limit

/-! ## The interpreter in step -/

/-- The interpreter with the given fuel that gives up where an expression, a statement, a call or a
text begins or ends while the current call is out of step. -/
noncomputable def Interp.inStep (host : Host) : (fuel : Nat) → (call : Option MethodCall) → Interp
  | 0, _ => Interp.withFuel host 0
  | n + 1, call =>
    let self := inStep host n call
    let execute st := Exec.guarded (State.InStep call) (Exec.executeWith n self st)
    { evaluate := fun e => Exec.guarded (State.InStep call) (Exec.evaluateWith self e)
      execute
      run := Exec.runAll execute
      invoke := fun f owner args line => Exec.guarded (State.InStep call) fun s =>
        Exec.invokeWith host (inStep host n (s.beginning owner)) f owner args line s
      text := fun frames c line =>
        Exec.guarded (State.InStep call) (Exec.textWith n self frames c line) }

/-- The functions of a host leave the scopes steady and members bound. -/
structure Host.Holds (host : Host) : Prop where
  steady : Host.Steady (fun _ => False) host
  members (name : String) (s : State) : s.Distinct →
    s.HoldsMembers s.store.objects.size (finalState (host name s))

theorem Host.Holds.layered {host : Host} (h : host.Holds) (N : Nat) (name : String) :
    Layered (.holding N) (fun _ => True) (host name) :=
  Layered.of_framed (h.steady.framed name) fun s hs =>
    (Exec.ends_of_final ((h.members name s hs.2).mono hs.1)).mono
      (fun _ _ ht => ⟨trivial, ht, trivial⟩) fun _ _ ht => ⟨ht, trivial⟩

/-- Begun where the current call is anchored, nothing gets it out of step. -/
theorem watching_inStep {host : Host} (hh : host.Holds) (n : Nat) (call : Option MethodCall)
    (N : Nat) :
    (watching call N).AgreeOn .any (Interp.inStep host n call) (Interp.withFuel host n) ∧
      ∀ frames c line, Watched call N (fun _ => True)
        ((Interp.inStep host n call).text frames c line)
        ((Interp.withFuel host n).text frames c line) := by
  have full : (Fragment.declaring True).Full :=
    ⟨fun _ => trivial, trivial, trivial, trivial, trivial⟩
  have frames {call : Option MethodCall} {N : Nat} :
      Watched call N (fun _ => True) Exec.frames Exec.frames := .self (.read fun _ => trivial)
  induction n generalizing call N with
  | zero =>
    have out {α : Type} : Watched call N (fun _ => True) (throw .outOfFuel : Exec α)
      (throw .outOfFuel) := .self (.throw _)
    exact ⟨{
      evaluate := fun _ => out
      execute := fun _ => out
      run := fun _ => .runAll (fun _ => out) _
      invoke := fun _ _ _ _ => out
      fullText := fun _ _ _ => frames.bind fun _ _ => out }, fun _ _ _ => out⟩
  | succ k ih =>
    obtain ⟨on, texts⟩ := ih call N
    have inStep (s : State) (hs : s.Ready call N) : s.InStep call := hs.inStep
    have execute (st : Stmt) := (on.executeWith k (full.stmtParts false st)).guarded inStep
    have text (frames : Nat) (c : Cell) (line : Option Nat) :=
      (on.textWith trivial trivial texts k frames c line).guarded inStep
    have body {call : Option MethodCall} {N : Nat} (f : Callable) (line : Option Nat) :
        WatchedInward call N (Exec.runCallable host (Interp.inStep host k call) f line)
          (Exec.runCallable host (Interp.withFuel host k) f line) :=
      (ih call N).1.runCallable line trivial (fun name _ _ => .self (hh.layered N name))
        fun _ body _ _ => ⟨full.declaresAll body, fun _ _ => trivial⟩
    refine ⟨{
      evaluate := fun _ => (on.evaluateWith (full.exprParts fun _ _ _ => trivial)).guarded inStep
      execute := fun _ => execute _
      run := fun _ => .runAll execute _
      invoke := fun {f} owner args line _ => ?_
      fullText := fun c line _ => frames.bind fun n _ => text n c line }, text⟩
    -- The body is watched with the call that begins here, and so with all objects that there are.
    have called : Watched call N (fun _ => True)
        (fun s =>
          Exec.invokeWith host (Interp.inStep host k (s.beginning owner)) f owner args line s)
        (Exec.invokeWith host (Interp.withFuel host k) f owner args line) :=
      { along := Layered.inCall (@body call N f line).inward _ owner args line
        same := fun {s} hs => (body f line).inCall hs.holds.2 _ args line }
    exact called.guarded inStep

end CellScript
