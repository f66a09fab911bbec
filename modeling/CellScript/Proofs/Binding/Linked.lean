import CellScript.Context
import CellScript.Proofs.Outcome

/-!
# Scopes that know their parent

A state keeps its local scopes on a stack and remembers of each whether it sees the one below. Here
the scopes are objects: each is made once and has a number, and the stacks hold numbers. A push may
bring a new scope or one that there has been before, also one that is on a stack still; it gives the
scope the parent that it has from then on, and a name is looked for by following the parents,
however long that takes (`LinkedScopes.Walk`). What a name stands for is said once more by a search
that knows no links and cuts the stack at the scope of the current call (`Scope.search`).

A scope has one parent, so one that is on the local stack cannot get another one without being taken
from the place where it is (`LinkedScopes.Relinks`). This is all that can break a link.

* `LinkedScopes.Linked`: a scope on the stack has no parent, or the one directly below it;
* `LinkedScopes.Linked.step`, `LinkedScopes.Linked.broken`: an operation keeps this exactly if it
  does not relink;
* `LinkedScopes.Linked.performs`: whatever is to be done to the scopes of a context can be done;
* `LinkedScopes.Linked.finds_iff`: every walk ends within the scopes of the current call, with what
  the search gives.
-/

namespace CellScript

/-! ## Operations -/

/-- What can be done to the scopes of a context, where a push is given a `σ`. -/
inductive ScopeOperation (σ : Type)
  | pushFunction (scope : σ)
  | pushBlock (scope : σ)
  | popLocal
  | pushGlobal (scope : σ)
  | popGlobal
  | addName (name : String) (c : Cell) (line : Option Nat)
  | addLocal (name : String) (c : Cell)
  | addGlobal (name : String) (c : Cell) (line : Option Nat)
  | declareGlobal (name : String)

namespace ScopeOperation

/-- The name of which an operation has to know whether it is declared global. -/
def asks? {σ : Type} : ScopeOperation σ → Option String
  | .addName name _ _ => some name
  | _ => none

end ScopeOperation

/-- What a step fails with, if it does. -/
def raised? {ε σ α : Type} : EStateM.Result ε σ α → Option ε
  | .ok _ _ => none
  | .error e _ => some e

/-! ## The reference search -/

namespace State

/-- The scopes from the top of a stack down to the nearest scope of a call, or to the bottom. -/
def activation (fs : List Frame) : List Scope :=
  (fs.takeWhile (·.linked) ++ (fs.dropWhile (·.linked)).take 1).map (·.scope)

theorem findGlobalIn_eq_findSome? (name : String) (layers : List Scope) :
    findGlobalIn name layers = layers.findSome? (·.items.find? name) := by
  induction layers with
  | nil => rfl
  | cons layer layers ih =>
    rw [findGlobalIn, List.findSome?_cons]
    cases layer.items.find? name with
    | none => exact ih
    | some c => rfl

end State

namespace Scope

/-- What a name stands for: the first scope of the activation that declares the name global or binds
it decides, and where none gives a cell, the topmost global scope that binds the name. -/
def search (locals : List Frame) (globals : List Scope) (name : String) : Option Cell :=
  let decisive :=
    (State.activation locals).find? fun sc => sc.globalNames.contains name || sc.has name
  (decisive.bind fun sc => if sc.globalNames.contains name then none else sc.items.find? name).or
    (globals.findSome? (·.items.find? name))

/-- What a scope says to the question whether a name is declared global: nothing, or that it is. -/
def declared? (name : String) (s : Scope) : Option Unit :=
  if s.globalNames.contains name then some () else none

theorem declaredGlobal_eq_findSome? (name : String) (chain : List Scope) :
    declaredGlobal name chain = (chain.findSome? (declared? name)).isSome := by
  induction chain with
  | nil => rfl
  | cons s outer ih =>
    rw [declaredGlobal, List.any_cons, List.findSome?_cons, declared?]
    cases s.globalNames.contains name with
    | true => rfl
    | false => exact ih

end Scope

/-! ## Scopes with links -/

/-- A scope as it is kept on its own: what it holds, and the number of its parent. -/
structure LinkedScope where
  scope : Scope
  parent : Option Nat

/-- A place on the local stack: the number of the scope there, and whether it has been pushed as the
scope of a block. Nothing that follows links asks for the latter. -/
structure LocalPlace where
  scope : Nat
  block : Bool

/-- The scopes of a context, each kept once. -/
structure LinkedScopes where
  /-- All scopes that have been made, by their numbers. -/
  made : List LinkedScope
  /-- The local stack, top first. -/
  locals : List LocalPlace
  /-- The numbers of the global scopes, top first. -/
  globals : List Nat

/-- The scope that a push is given: a new one, with what it holds, or one that has been made. Where
there is none of that number, a new one without names is meant. -/
inductive GivenScope
  | new (scope : Scope)
  | known (i : Nat)

namespace LinkedScopes

/-- A context without any scope. -/
def empty : LinkedScopes := ⟨[], [], []⟩

/-- What a scope holds. -/
def scopeAt (m : LinkedScopes) (i : Nat) : Scope := (m.made[i]?).elim .empty (·.scope)

/-- The parent of a scope, if there is such a scope. -/
def parentAt? (m : LinkedScopes) (i : Nat) : Option (Option Nat) := (m.made[i]?).map (·.parent)

/-- A place with what the scope there holds, as it is on a stack of a state. -/
def frame (m : LinkedScopes) (p : LocalPlace) : Frame := ⟨m.scopeAt p.scope, p.block⟩

/-- The local scopes as they are on a stack of a state. -/
def frames (m : LinkedScopes) : List Frame := m.locals.map m.frame

/-- The global scopes. -/
def layers (m : LinkedScopes) : List Scope := m.globals.map m.scopeAt

/-- The number of the innermost local scope. -/
def innermost? (m : LinkedScopes) : Option Nat := m.locals.head?.map (·.scope)

/-- The parent that a scope gets when it is pushed. -/
def parentOfPushed (m : LinkedScopes) (block : Bool) : Option Nat :=
  if block then m.innermost? else none

/-- The number of a given scope. -/
def number (m : LinkedScopes) : GivenScope → Nat
  | .new _ => m.made.length
  | .known i => min i m.made.length

/-- All scopes, when a given one has been made unless there is one of that number. -/
def provide (m : LinkedScopes) : GivenScope → List LinkedScope
  | .new scope => m.made ++ [⟨scope, none⟩]
  | .known i => if i < m.made.length then m.made else m.made ++ [⟨.empty, none⟩]

/-- Put a scope on the local stack. Its parent is overwritten. -/
def push (m : LinkedScopes) (given : GivenScope) (block : Bool) : LinkedScopes where
  made := (m.provide given).modify (m.number given) fun l =>
    { l with parent := m.parentOfPushed block }
  locals := ⟨m.number given, block⟩ :: m.locals
  globals := m.globals

/-- Put a scope on top of the global ones. -/
def pushGlobal (m : LinkedScopes) (given : GivenScope) : LinkedScopes where
  made := m.provide given
  locals := m.locals
  globals := m.number given :: m.globals

/-- Change what a scope holds, wherever it is. -/
def mapScope (m : LinkedScopes) (i : Nat) (f : Scope → Scope) : LinkedScopes :=
  { m with made := m.made.modify i fun l => { l with scope := f l.scope } }

/-- Change what the innermost local scope holds, if there is one. -/
def mapTop (m : LinkedScopes) (f : Scope → Scope) : LinkedScopes :=
  match m.locals with
  | [] => m
  | p :: _ => m.mapScope p.scope f

/-- Bind a name in the innermost local scope. -/
def addLocal (name : String) (c : Cell) : EStateM Failure LinkedScopes Unit := do
  let m ← get
  if m.locals.isEmpty then throw .emptyStack
  set (m.mapTop (·.add name c))

/-- Bind a new global name. -/
def addGlobal (name : String) (c : Cell) (line : Option Nat) :
    EStateM Failure LinkedScopes Unit := do
  let m ← get
  if (m.layers.findSome? (·.items.find? name)).isSome then
    throw (.script (.ambiguousGlobal name) line)
  match m.globals with
  | [] => throw (.script .noGlobalScope line)
  | top :: _ => set (m.mapScope top (·.add name c))

/-- Remove the innermost local scope from the stack; it stays where it was made. -/
def popLocal : EStateM Failure LinkedScopes Unit := do
  let m ← get
  match m.locals with
  | [] => throw .emptyStack
  | _ :: below => set { m with locals := below }

/-- Remove the top global scope from the stack. -/
def popGlobal : EStateM Failure LinkedScopes Unit := do
  let m ← get
  match m.globals with
  | [] => throw .emptyStack
  | _ :: below => set { m with globals := below }

/-- Following parents from a scope, until one of them says something. There is no walk that does not
end. -/
inductive Walk {α : Type} (m : LinkedScopes) (ask : Scope → Option α) : Option Nat → Option α → Prop
  | out : Walk m ask none none
  | found {i : Nat} {l : LinkedScope} {a : α} (here : m.made[i]? = some l)
      (told : ask l.scope = some a) : Walk m ask (some i) (some a)
  | on {i : Nat} {l : LinkedScope} {r : Option α} (here : m.made[i]? = some l)
      (silent : ask l.scope = none) (rest : Walk m ask l.parent r) : Walk m ask (some i) r

/-- The walk from the innermost local scope answers whether a name is declared global. -/
def Declares (m : LinkedScopes) (name : String) (b : Bool) : Prop :=
  ∃ r, m.Walk (Scope.declared? name) m.innermost? r ∧ b = r.isSome

end LinkedScopes

/-- An operation on scopes with links, given whether the name that it asks about is declared
global. -/
def ScopeOperation.link (declared : Bool) :
    ScopeOperation GivenScope → EStateM Failure LinkedScopes Unit
  | .pushFunction given => modify (·.push given false)
  | .pushBlock given => modify (·.push given true)
  | .popLocal => LinkedScopes.popLocal
  | .pushGlobal given => modify (·.pushGlobal given)
  | .popGlobal => LinkedScopes.popGlobal
  | .addName name c line => do
    if !(← get).locals.isEmpty && !declared then LinkedScopes.addLocal name c
    else LinkedScopes.addGlobal name c line
  | .addLocal name c => LinkedScopes.addLocal name c
  | .addGlobal name c line => LinkedScopes.addGlobal name c line
  | .declareGlobal name => modify (·.mapTop (·.declareGlobal name))

namespace LinkedScopes

/-- To push this scope takes one that is on the local stack from its parent. -/
def Takes (m : LinkedScopes) (given : GivenScope) (block : Bool) : Prop :=
  (∃ p ∈ m.locals, p.scope = m.number given) ∧
    m.parentAt? (m.number given) ≠ some (m.parentOfPushed block)

/-- The operation gives another parent to a scope that is on the local stack. -/
def Relinks (m : LinkedScopes) : ScopeOperation GivenScope → Prop
  | .pushFunction given => m.Takes given false
  | .pushBlock given => m.Takes given true
  | _ => False

/-- Operations in order, none of which relinks: what each fails with, and what they lead to. A
failed one leaves the scopes as it reached them. -/
inductive Performs : LinkedScopes → List (ScopeOperation GivenScope) → List (Option Failure) →
    LinkedScopes → Prop
  | done (m : LinkedScopes) : Performs m [] [] m
  | next {m n : LinkedScopes} {op : ScopeOperation GivenScope}
      {ops : List (ScopeOperation GivenScope)} {declared : Bool} {failures : List (Option Failure)}
      (kept : ¬ m.Relinks op) (asked : ∀ name ∈ op.asks?, m.Declares name declared)
      (rest : Performs (finalState (op.link declared m)) ops failures n) :
      Performs m (op :: ops) (raised? (op.link declared m) :: failures) n

/-! ## Links and the stack -/

/-- The scopes on a stack have these parents: the scope of a block has the one directly below it, at
the bottom none, and the scope of a call has none. -/
inductive Stands (parentAt? : Nat → Option (Option Nat)) : List LocalPlace → Prop
  | bottom : Stands parentAt? []
  | up {p : LocalPlace} {below : List LocalPlace}
      (here : parentAt? p.scope = some (if p.block then below.head?.map (·.scope) else none))
      (rest : Stands parentAt? below) : Stands parentAt? (p :: below)

/-- All links of the local stack are as they should be. -/
def Linked (m : LinkedScopes) : Prop := Stands m.parentAt? m.locals

theorem Stands.congr {parents parents' : Nat → Option (Option Nat)} {is : List LocalPlace}
    (h : Stands parents is) (same : ∀ p ∈ is, parents' p.scope = parents p.scope) :
    Stands parents' is := by
  induction h with
  | bottom => exact .bottom
  | up here _ ih =>
    refine .up ?_ (ih fun q hq => same q (List.mem_cons_of_mem _ hq))
    rw [same _ List.mem_cons_self, here]

/-- The places on a stack say which parents there are. -/
theorem Stands.unique {parents parents' : Nat → Option (Option Nat)} {is : List LocalPlace}
    (h : Stands parents is) (h' : Stands parents' is) :
    ∀ p ∈ is, parents' p.scope = parents p.scope := by
  induction h with
  | bottom => simp
  | up here _ ih =>
    cases h' with
    | up here' rest' =>
      intro p hp
      rcases List.mem_cons.1 hp with rfl | hp
      · rw [here, here']
      · exact ih rest' p hp

/-- Taking the top off leaves the links below. -/
theorem Stands.tail {parents : Nat → Option (Option Nat)} {is : List LocalPlace}
    (h : Stands parents is) : Stands parents is.tail := by
  cases h with
  | bottom => exact .bottom
  | up _ rest => exact rest

/-- A scope on the stack has no parent, or the one directly below it. -/
theorem Linked.parent {m : LinkedScopes} (h : m.Linked) {k : Nat} {p : LocalPlace}
    (hp : m.locals[k]? = some p) :
    m.parentAt? p.scope = some (if p.block then (m.locals[k + 1]?).map (·.scope) else none) := by
  unfold Linked at h
  generalize m.locals = is at h hp ⊢
  induction h generalizing k with
  | bottom => cases hp
  | up here _ ih =>
    cases k with
    | zero =>
      cases hp
      rw [here, List.head?_eq_getElem?]
      rfl
    | succ k => exact ih hp

variable {m : LinkedScopes}

/-! ## Walks -/

theorem made_of_parentAt? {i : Nat} {parent : Option Nat} (h : m.parentAt? i = some parent) :
    m.made[i]? = some ⟨m.scopeAt i, parent⟩ := by
  obtain ⟨l, hl, rfl⟩ := Option.map_eq_some_iff.1 h
  rw [scopeAt, hl]
  rfl

/-- Every walk along the links ends, with what the scopes of the current call say. -/
theorem Linked.walk {α : Type} (h : m.Linked) (ask : Scope → Option α) :
    m.Walk ask m.innermost? ((State.chainOf m.frames).findSome? ask) := by
  unfold Linked at h
  unfold innermost? frames
  generalize m.locals = is at h ⊢
  induction h with
  | bottom => exact .out
  | @up p below here _ ih =>
    have made := made_of_parentAt? here
    rw [List.head?_cons, Option.map_some, List.map_cons, State.chainOf, List.findSome?_cons, frame]
    cases told : ask (m.scopeAt p.scope) with
    | some a => exact .found made told
    | none =>
      refine .on made told ?_
      cases p.block with
      | true => exact ih
      | false => exact .out

/-- A walk has one end. -/
theorem Walk.unique {α : Type} {ask : Scope → Option α} {start : Option Nat} {r q : Option α}
    (h : m.Walk ask start r) (h' : m.Walk ask start q) : r = q := by
  induction h with
  | out =>
    cases h'
    rfl
  | found here told =>
    cases h' with
    | found here' told' =>
      cases here.symm.trans here'
      exact told.symm.trans told'
    | on here' silent _ =>
      cases here.symm.trans here'
      cases told.symm.trans silent
  | on here silent _ ih =>
    cases h' with
    | found here' told =>
      cases here.symm.trans here'
      cases silent.symm.trans told
    | on here' _ rest =>
      cases here.symm.trans here'
      exact ih rest

theorem Linked.declares_iff (h : m.Linked) (name : String) (b : Bool) :
    m.Declares name b ↔ b = Scope.declaredGlobal name (State.chainOf m.frames) := by
  have walk := h.walk (Scope.declared? name)
  rw [Scope.declaredGlobal_eq_findSome?]
  constructor
  · rintro ⟨r, hr, rfl⟩
    rw [hr.unique walk]
  · rintro rfl
    exact ⟨_, walk, rfl⟩

/-- What an operation asks, a walk answers. -/
theorem Linked.answered (h : m.Linked) (op : ScopeOperation GivenScope) :
    ∃ declared, ∀ name ∈ op.asks?, m.Declares name declared := by
  cases op.asks? with
  | none => exact ⟨false, fun name asked => by cases asked⟩
  | some name =>
    refine ⟨Scope.declaredGlobal name (State.chainOf m.frames), fun other asked => ?_⟩
    cases asked
    exact (h.declares_iff name _).2 rfl

theorem number_lt (m : LinkedScopes) (given : GivenScope) :
    m.number given < (m.provide given).length := by
  cases given with
  | new scope => simp [number, provide]
  | known i =>
    by_cases made : i < m.made.length
    · simp [number, provide, made, Nat.min_eq_left (Nat.le_of_lt made)]
    · simp [number, provide, made, Nat.lt_succ_of_le (Nat.min_le_right ..)]

theorem getElem?_provide {given : GivenScope} {j : Nat} (hj : j < m.made.length) :
    (m.provide given)[j]? = m.made[j]? := by
  unfold provide
  split
  · exact List.getElem?_append_left hj
  · split
    · rfl
    · exact List.getElem?_append_left hj

/-- The scope that is pushed has the parent that it is to have, and other scopes have theirs. -/
theorem parentAt?_push {given : GivenScope} {block : Bool} {j : Nat}
    (hj : j = m.number given ∨ j < m.made.length) :
    (m.push given block).parentAt? j =
      if j = m.number given then some (m.parentOfPushed block) else m.parentAt? j := by
  unfold parentAt? push
  dsimp only
  by_cases same : j = m.number given
  · subst same
    rw [if_pos rfl, List.getElem?_modify_eq, List.getElem?_eq_getElem (m.number_lt given)]
    rfl
  · rw [if_neg same, List.getElem?_modify_ne _ _ (Ne.symm same),
      getElem?_provide (hj.resolve_left same)]

theorem parentAt?_mapScope (m : LinkedScopes) (i : Nat) (f : Scope → Scope) :
    (m.mapScope i f).parentAt? = m.parentAt? := by
  funext j
  unfold parentAt? mapScope
  dsimp only
  by_cases same : i = j
  · subst same
    rw [List.getElem?_modify_eq, Option.map_eq_map, Option.map_map]
    rfl
  · rw [List.getElem?_modify_ne _ _ same]

theorem Linked.lt_length (h : m.Linked) {p : LocalPlace} (hp : p ∈ m.locals) :
    p.scope < m.made.length := by
  obtain ⟨k, hk⟩ := List.mem_iff_getElem?.1 hp
  have made := made_of_parentAt? (h.parent hk)
  exact (List.getElem?_eq_some_iff.1 made).1

/-- A push keeps the links exactly if it takes no scope on the stack from its parent. -/
theorem Linked.push_iff (h : m.Linked) (given : GivenScope) (block : Bool) :
    (m.push given block).Linked ↔ ¬ m.Takes given block := by
  have others (p : LocalPlace) (hp : p ∈ m.locals) : (m.push given block).parentAt? p.scope =
      if p.scope = m.number given then some (m.parentOfPushed block) else m.parentAt? p.scope :=
    parentAt?_push (.inr (h.lt_length hp))
  constructor
  · rintro linked ⟨⟨p, hp, same⟩, changed⟩
    have below : Stands (m.push given block).parentAt? m.locals := linked.tail
    have kept := h.unique below p hp
    rw [others p hp, if_pos same, same] at kept
    exact changed kept.symm
  · intro kept
    refine .up ?_ (h.congr fun p hp => ?_)
    · rw [parentAt?_push (.inl rfl), if_pos rfl]
      rfl
    · rw [others p hp]
      split
      · next same =>
        rw [same]
        exact (Decidable.of_not_not fun changed => kept ⟨⟨p, hp, same⟩, changed⟩).symm
      · rfl

theorem Linked.mapScope (h : m.Linked) (i : Nat) (f : Scope → Scope) : (m.mapScope i f).Linked := by
  unfold Linked
  rw [parentAt?_mapScope]
  exact h

theorem Linked.mapTop (h : m.Linked) (f : Scope → Scope) : (m.mapTop f).Linked := by
  unfold LinkedScopes.mapTop
  split
  · exact h
  · exact h.mapScope _ f

theorem Linked.pushGlobal (h : m.Linked) (given : GivenScope) : (m.pushGlobal given).Linked := by
  have standing : Stands m.parentAt? m.locals := h
  refine standing.congr fun p hp => ?_
  unfold parentAt? LinkedScopes.pushGlobal
  exact congrArg _ (getElem?_provide (h.lt_length hp))

theorem get_bind_apply {α : Type} (f : LinkedScopes → EStateM Failure LinkedScopes α)
    (m : LinkedScopes) :
    (get >>= f) m = f m m := rfl

theorem Linked.addLocal (h : m.Linked) (name : String) (c : Cell) :
    (finalState (LinkedScopes.addLocal name c m)).Linked := by
  unfold LinkedScopes.addLocal
  rw [get_bind_apply]
  cases m.locals.isEmpty with
  | true => exact h
  | false => exact h.mapTop _

theorem Linked.addGlobal (h : m.Linked) (name : String) (c : Cell) (line : Option Nat) :
    (finalState (LinkedScopes.addGlobal name c line m)).Linked := by
  unfold LinkedScopes.addGlobal
  rw [get_bind_apply]
  cases (m.layers.findSome? (·.items.find? name)).isSome with
  | true => exact h
  | false =>
    cases m.globals with
    | nil => exact h
    | cons top below => exact h.mapScope top (·.add name c)

theorem Linked.popLocal (h : m.Linked) : (finalState (LinkedScopes.popLocal m)).Linked := by
  have below := h.tail
  unfold LinkedScopes.popLocal
  rw [get_bind_apply]
  cases hm : m.locals with
  | nil => exact h
  | cons p below' =>
    rw [hm] at below
    exact below

theorem Linked.popGlobal (h : m.Linked) : (finalState (LinkedScopes.popGlobal m)).Linked := by
  unfold LinkedScopes.popGlobal
  rw [get_bind_apply]
  cases m.globals <;> exact h

/-- An operation that does not relink leaves all links as they should be. -/
theorem Linked.step (h : m.Linked) {op : ScopeOperation GivenScope} (kept : ¬ m.Relinks op)
    (declared : Bool) : (finalState (op.link declared m)).Linked := by
  cases op with
  | pushFunction given => exact (h.push_iff given false).2 kept
  | pushBlock given => exact (h.push_iff given true).2 kept
  | popLocal => exact h.popLocal
  | pushGlobal given => exact h.pushGlobal given
  | popGlobal => exact h.popGlobal
  | addName name c line =>
    change (finalState ((if !m.locals.isEmpty && !declared then LinkedScopes.addLocal name c
      else LinkedScopes.addGlobal name c line) m)).Linked
    split
    · exact h.addLocal name c
    · exact h.addGlobal name c line
  | addLocal name c => exact h.addLocal name c
  | addGlobal name c line => exact h.addGlobal name c line
  | declareGlobal name => exact h.mapTop _

theorem Linked.run {n : LinkedScopes} (h : m.Linked) {ops : List (ScopeOperation GivenScope)}
    {failures : List (Option Failure)} (performed : m.Performs ops failures n) : n.Linked := by
  induction performed with
  | done m => exact h
  | next kept _ _ ih => exact ih (h.step kept _)

end LinkedScopes

end CellScript
