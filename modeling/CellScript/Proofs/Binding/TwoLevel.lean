import CellScript.Proofs.Binding.Linked

/-!
# Names are resolved in two levels

A state keeps what its local scopes hold on a stack and remembers of each whether it sees the one
below. This is enough as long as no scope is in two places, so for all that a program does, which
makes a new scope for every push. Scopes that are objects with links are led through the same
operations here, and hold the same.

* `LinkedScopes.Mirrors`: a state holds the same scopes, each of which is in one place only;
* `LinkedScopes.Mirrors.run`: operations fail alike, and this is kept;
* `LinkedScopes.resolution_two_level`: the walk along the links, the state and the search find the
  same, whatever is done to the scopes of a context.
-/

namespace CellScript

/-! ## Operations on states -/

namespace ScopeOperation

/-- The operation that gives something else to a push. -/
def map {σ τ : Type} (f : σ → τ) : ScopeOperation σ → ScopeOperation τ
  | .pushFunction scope => .pushFunction (f scope)
  | .pushBlock scope => .pushBlock (f scope)
  | .popLocal => .popLocal
  | .pushGlobal scope => .pushGlobal (f scope)
  | .popGlobal => .popGlobal
  | .addName name c line => .addName name c line
  | .addLocal name c => .addLocal name c
  | .addGlobal name c line => .addGlobal name c line
  | .declareGlobal name => .declareGlobal name

/-- An operation on a state, which takes over what a pushed scope holds. -/
def perform : ScopeOperation Scope → Exec Unit
  | .pushFunction scope => modify (·.pushFunctionScope scope)
  | .pushBlock scope => modify (·.pushBlockScope scope)
  | .popLocal => Exec.popLocalScope
  | .pushGlobal scope => modify fun s => { s with globals := scope :: s.globals }
  | .popGlobal => Exec.popGlobal
  | .addName name c line => Exec.addName name c line
  | .addLocal name c => Exec.addLocal name c
  | .addGlobal name c line => Exec.addGlobal name c line
  | .declareGlobal name => modify (·.declareGlobal name)

end ScopeOperation

/-- Operations in order: what each fails with, and the state in the end. A failed one leaves the
state that it reached. -/
def State.perform (s : State) : List (ScopeOperation Scope) → List (Option Failure) × State
  | [] => ([], s)
  | op :: ops =>
    let r := op.perform s
    let (failures, t) := (finalState r).perform ops
    (raised? r :: failures, t)

namespace LinkedScopes

variable {m : LinkedScopes}

/-- The numbers of the scopes on both stacks. -/
def standing (m : LinkedScopes) : List Nat := m.locals.map (·.scope) ++ m.globals

/-- A state holds the same scopes, each of which is in one place only. -/
structure Mirrors (m : LinkedScopes) (s : State) : Prop where
  locals : m.frames = s.locals
  globals : m.layers = s.globals
  apart : m.standing.Nodup
  made : ∀ i ∈ m.standing, i < m.made.length

/-- A new scope holds what it is made with, and other scopes hold what they did. -/
theorem scopeAt_provide_new (m : LinkedScopes) (scope : Scope) :
    let n : LinkedScopes := { m with made := m.provide (.new scope) }
    n.scopeAt m.made.length = scope ∧ ∀ i < m.made.length, n.scopeAt i = m.scopeAt i := by
  refine ⟨?_, fun i hi => ?_⟩
  · simp [scopeAt, provide]
  · unfold scopeAt
    rw [getElem?_provide hi]

/-- What is in a scope does not depend on its parent. -/
theorem scopeAt_push (m : LinkedScopes) (given : GivenScope) (block : Bool) :
    (m.push given block).scopeAt = ({ m with made := m.provide given } : LinkedScopes).scopeAt := by
  funext i
  unfold scopeAt push
  dsimp only
  rw [List.getElem?_modify]
  cases (m.provide given)[i]? with
  | none => rfl
  | some l =>
    change (if m.number given = i then _ else l).scope = l.scope
    split <;> rfl

theorem not_takes_new {scope : Scope} {block : Bool} (h : ∀ p ∈ m.locals, p.scope < m.made.length) :
    ¬ m.Takes (.new scope) block := by
  rintro ⟨⟨p, hp, same⟩, -⟩
  exact Nat.lt_irrefl _ (same ▸ h p hp)

theorem scopeAt_mapScope {i : Nat} (hi : i < m.made.length) (f : Scope → Scope) (j : Nat) :
    (m.mapScope i f).scopeAt j = if i = j then f (m.scopeAt j) else m.scopeAt j := by
  unfold scopeAt mapScope
  dsimp only
  split
  · next same =>
    subst same
    rw [List.getElem?_modify_eq, List.getElem?_eq_getElem hi]
    rfl
  · next other => rw [List.getElem?_modify_ne _ _ other]

theorem map_frame_congr {n : LinkedScopes} {is : List LocalPlace}
    (h : ∀ p ∈ is, n.scopeAt p.scope = m.scopeAt p.scope) : is.map n.frame = is.map m.frame :=
  List.map_congr_left fun p hp => congrArg (Frame.mk · p.block) (h p hp)

namespace Mirrors

variable {s : State}

theorem isEmpty_eq (h : m.Mirrors s) : m.locals.isEmpty = s.locals.isEmpty := by
  rw [← h.locals, frames, List.isEmpty_map]

theorem lt_length (h : m.Mirrors s) {p : LocalPlace} (hp : p ∈ m.locals) :
    p.scope < m.made.length :=
  h.made _ (List.mem_append_left _ (List.mem_map_of_mem hp))

/-- A new local scope. -/
theorem push (h : m.Mirrors s) (scope : Scope) (block : Bool) :
    (m.push (.new scope) block).Mirrors { s with locals := ⟨scope, block⟩ :: s.locals } := by
  obtain ⟨new, old⟩ := m.scopeAt_provide_new scope
  rw [← m.scopeAt_push (.new scope) block] at new old
  have fresh : m.made.length ∉ m.standing := fun hi => Nat.lt_irrefl _ (h.made _ hi)
  have longer : (m.push (.new scope) block).made.length = m.made.length + 1 := by
    simp [LinkedScopes.push, provide]
  refine ⟨?_, ?_, List.nodup_cons.2 ⟨fresh, h.apart⟩, fun i hi => ?_⟩
  · rw [← h.locals]
    exact List.cons_eq_cons.2 ⟨congrArg (Frame.mk · block) new,
      map_frame_congr fun p hp => old _ (h.lt_length hp)⟩
  · rw [← h.globals]
    exact List.map_congr_left fun i hi => old i (h.made i (List.mem_append_right _ hi))
  · rw [longer]
    rcases List.mem_cons.1 hi with rfl | hi
    · exact Nat.lt_succ_self _
    · exact Nat.lt_succ_of_lt (h.made i hi)

/-- A new global scope. -/
theorem pushGlobal (h : m.Mirrors s) (scope : Scope) :
    (m.pushGlobal (.new scope)).Mirrors { s with globals := scope :: s.globals } := by
  obtain ⟨new, old⟩ := m.scopeAt_provide_new scope
  have fresh : m.made.length ∉ m.standing := fun hi => Nat.lt_irrefl _ (h.made _ hi)
  have longer : (m.pushGlobal (.new scope)).made.length = m.made.length + 1 := by
    simp [LinkedScopes.pushGlobal, provide]
  have moved : (m.pushGlobal (.new scope)).standing.Perm (m.made.length :: m.standing) :=
    List.perm_middle
  refine ⟨?_, ?_, moved.nodup_iff.2 (List.nodup_cons.2 ⟨fresh, h.apart⟩), fun i hi => ?_⟩
  · rw [← h.locals]
    exact map_frame_congr fun p hp => old _ (h.lt_length hp)
  · rw [← h.globals]
    refine List.cons_eq_cons.2 ⟨new, List.map_congr_left fun i hi => ?_⟩
    exact old i (h.made i (List.mem_append_right _ hi))
  · rw [longer]
    rcases List.mem_cons.1 (moved.mem_iff.1 hi) with rfl | hi
    · exact Nat.lt_succ_self _
    · exact Nat.lt_succ_of_lt (h.made i hi)

theorem made_mapScope (h : m.Mirrors s) (i : Nat) (f : Scope → Scope) :
    ∀ j ∈ m.standing, j < (m.mapScope i f).made.length := fun j hj => by
  rw [LinkedScopes.mapScope, List.length_modify]
  exact h.made j hj

/-- A change of the innermost local scope, which is in no other place. -/
theorem mapTop (h : m.Mirrors s) (f : Scope → Scope) : (m.mapTop f).Mirrors (s.mapTop f) := by
  have locals := h.locals
  unfold LinkedScopes.mapTop State.mapTop
  cases hm : m.locals with
  | nil =>
    rw [frames, hm] at locals
    rw [← locals]
    exact h
  | cons p below =>
    rw [frames, hm] at locals
    have inside : p.scope < m.made.length := h.lt_length (hm ▸ List.mem_cons_self)
    have apart := h.apart
    rw [standing, hm] at apart
    have others (i : Nat) (hi : i ∈ below.map (·.scope) ++ m.globals) :
        (m.mapScope p.scope f).scopeAt i = m.scopeAt i := by
      rw [scopeAt_mapScope inside, if_neg]
      rintro rfl
      exact (List.nodup_cons.1 apart).1 hi
    rw [← locals]
    refine ⟨?_, ?_, h.apart, h.made_mapScope p.scope f⟩
    · change m.locals.map (m.mapScope p.scope f).frame = _
      rw [hm]
      have changed := (scopeAt_mapScope inside f p.scope).trans (if_pos rfl)
      exact List.cons_eq_cons.2 ⟨congrArg (Frame.mk · p.block) changed, map_frame_congr fun q hq =>
        others _ (List.mem_append_left _ (List.mem_map_of_mem hq))⟩
    · rw [← h.globals]
      exact List.map_congr_left fun i hi => others i (List.mem_append_right _ hi)

/-- A change of the top global scope, which is in no other place. -/
theorem mapGlobal (h : m.Mirrors s) {top : Nat} {below : List Nat} (hm : m.globals = top :: below)
    (f : Scope → Scope) : (m.mapScope top f).Mirrors
      { s with globals := f (m.scopeAt top) :: below.map m.scopeAt } := by
  have inside : top < m.made.length :=
    h.made _ (List.mem_append_right _ (hm ▸ List.mem_cons_self))
  have moved : m.standing.Perm (top :: (m.locals.map (·.scope) ++ below)) := by
    rw [standing, hm]
    exact List.perm_middle
  have others (i : Nat) (hi : i ∈ m.locals.map (·.scope) ++ below) :
      (m.mapScope top f).scopeAt i = m.scopeAt i := by
    rw [scopeAt_mapScope inside, if_neg]
    rintro rfl
    exact (List.nodup_cons.1 (moved.nodup_iff.1 h.apart)).1 hi
  refine ⟨?_, ?_, h.apart, h.made_mapScope top f⟩
  · rw [← h.locals]
    exact map_frame_congr fun p hp => others _ (List.mem_append_left _ (List.mem_map_of_mem hp))
  · change m.globals.map (m.mapScope top f).scopeAt = _
    rw [hm]
    have changed := (scopeAt_mapScope inside f top).trans (if_pos rfl)
    exact List.cons_eq_cons.2 ⟨changed, List.map_congr_left fun i hi =>
      others i (List.mem_append_right _ hi)⟩

/-- Both outcomes are alike: the same failure or none, and the scopes are still the same. -/
def Alike (r : EStateM.Result Failure LinkedScopes Unit)
    (q : EStateM.Result Failure State Unit) : Prop :=
  raised? r = raised? q ∧ (finalState r).Mirrors (finalState q)

theorem addLocal (h : m.Mirrors s) (name : String) (c : Cell) :
    Alike (LinkedScopes.addLocal name c m) (Exec.addLocal name c s) := by
  have top := h.mapTop (·.add name c)
  have empty := h.isEmpty_eq
  unfold LinkedScopes.addLocal Exec.addLocal
  rw [Exec.get_bind_apply, get_bind_apply, empty]
  cases s.locals.isEmpty with
  | true => exact ⟨rfl, h⟩
  | false => exact ⟨rfl, top⟩

theorem addGlobal (h : m.Mirrors s) (name : String) (c : Cell) (line : Option Nat) :
    Alike (LinkedScopes.addGlobal name c line m) (Exec.addGlobal name c line s) := by
  have found : s.findGlobal? name = m.layers.findSome? (·.items.find? name) := by
    rw [State.findGlobal?, State.findGlobalIn_eq_findSome?, h.globals]
  unfold LinkedScopes.addGlobal Exec.addGlobal
  rw [Exec.get_bind_apply, get_bind_apply, found]
  cases (m.layers.findSome? (·.items.find? name)).isSome with
  | true => exact ⟨rfl, h⟩
  | false =>
    rw [← h.globals, layers]
    cases hm : m.globals with
    | nil => exact ⟨rfl, h⟩
    | cons top below => exact ⟨rfl, h.mapGlobal hm (·.add name c)⟩

theorem popLocal (h : m.Mirrors s) : Alike (LinkedScopes.popLocal m) (Exec.popLocalScope s) := by
  obtain ⟨made, is, globals⟩ := m
  obtain ⟨locals, layers, apart, known⟩ := h
  unfold LinkedScopes.popLocal Exec.popLocalScope
  rw [Exec.get_bind_apply, get_bind_apply, ← locals]
  cases is with
  | nil => exact ⟨rfl, locals, layers, apart, known⟩
  | cons p below =>
    refine ⟨rfl, rfl, layers, (List.nodup_cons.1 apart).2, fun i hi => known i ?_⟩
    exact List.mem_cons_of_mem _ hi

theorem popGlobal (h : m.Mirrors s) : Alike (LinkedScopes.popGlobal m) (Exec.popGlobal s) := by
  obtain ⟨made, is, globals⟩ := m
  obtain ⟨locals, layers, apart, known⟩ := h
  unfold LinkedScopes.popGlobal Exec.popGlobal
  rw [Exec.get_bind_apply, get_bind_apply, ← layers]
  cases globals with
  | nil => exact ⟨rfl, locals, layers, apart, known⟩
  | cons top below =>
    have moved : (is.map (·.scope) ++ top :: below).Perm (top :: (is.map (·.scope) ++ below)) :=
      List.perm_middle
    refine ⟨rfl, locals, rfl, (List.nodup_cons.1 (moved.nodup_iff.1 apart)).2, fun i hi => ?_⟩
    exact known i (moved.mem_iff.2 (List.mem_cons_of_mem _ hi))

/-- An operation that brings new scopes fails alike on scopes with links, if it fails, and leads to
the same scopes. -/
theorem step (h : m.Mirrors s) (linked : m.Linked) {op : ScopeOperation Scope} {declared : Bool}
    (asked : ∀ name ∈ (op.map GivenScope.new).asks?, m.Declares name declared) :
    Alike ((op.map .new).link declared m) (op.perform s) := by
  cases op with
  | pushFunction scope => exact ⟨rfl, h.push scope false⟩
  | pushBlock scope => exact ⟨rfl, h.push scope true⟩
  | popLocal => exact h.popLocal
  | pushGlobal scope => exact ⟨rfl, h.pushGlobal scope⟩
  | popGlobal => exact h.popGlobal
  | addName name c line =>
    have answer : declared = s.isDeclaredGlobal name := by
      rw [State.isDeclaredGlobal, State.chain, ← h.locals]
      exact (linked.declares_iff name declared).1 (asked name rfl)
    change Alike ((if !m.locals.isEmpty && !declared then LinkedScopes.addLocal name c
      else LinkedScopes.addGlobal name c line) m)
      ((if !s.locals.isEmpty && !s.isDeclaredGlobal name then
        Exec.addLocal name c else Exec.addGlobal name c line) s)
    rw [h.isEmpty_eq, answer]
    split
    · exact h.addLocal name c
    · exact h.addGlobal name c line
  | addLocal name c => exact h.addLocal name c
  | addGlobal name c line => exact h.addGlobal name c line
  | declareGlobal name => exact ⟨rfl, h.mapTop (·.declareGlobal name)⟩

end Mirrors

theorem not_relinks_new (h : m.Linked) (op : ScopeOperation Scope) : ¬ m.Relinks (op.map .new) := by
  cases op with
  | pushFunction scope => exact not_takes_new fun p hp => h.lt_length hp
  | pushBlock scope => exact not_takes_new fun p hp => h.lt_length hp
  | _ => exact id

/-- Operations that bring new scopes fail alike on scopes with links, and lead to the same
scopes. -/
theorem Mirrors.run {s : State} (h : m.Mirrors s) (linked : m.Linked)
    (ops : List (ScopeOperation Scope)) :
    ∃ n, m.Performs (ops.map (·.map .new)) (s.perform ops).1 n ∧ n.Mirrors (s.perform ops).2 := by
  induction ops generalizing m s with
  | nil => exact ⟨m, .done m, h⟩
  | cons op ops ih =>
    have kept := not_relinks_new linked op
    obtain ⟨declared, asked⟩ := linked.answered (op.map .new)
    obtain ⟨failure, later⟩ := h.step linked asked
    obtain ⟨n, performed, last⟩ := ih later (linked.step kept declared)
    exact ⟨n, by rw [State.perform, ← failure]; exact .next kept asked performed, last⟩

end LinkedScopes

end CellScript
