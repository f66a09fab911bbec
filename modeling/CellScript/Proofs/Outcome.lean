import CellScript.Eval.Statement

/-!
# What a step leads to

`Exec.Ends x s Q E` says of the step `x`, begun in the state `s`, that `Q` holds of its result and
of the state in which it completes, or `E` of its failure and of the state in which it fails. There
is one lemma for each way in which steps are put together, so that a step can be followed without
looking at how steps are represented, and one rule for each single step that binds a name, registers
a type or takes from a stack (`Ends.addName`, `Ends.addType`, `Ends.popReturn` and so on).
-/

namespace CellScript

/-- The state in which a step ends, completed or failed. -/
def finalState {ε σ α : Type} : EStateM.Result ε σ α → σ
  | .ok _ s => s
  | .error _ s => s

/-- The value that a function defined in a script is. -/
def FunctionDef.toValue (f : FunctionDef Stmt) : Value :=
  .function (.script f.parameters f.body f.id) none

namespace State

/-- The state in which the body of a call begins. -/
def entered (s : State) (scope : Scope) (members : Option Scope) : State :=
  pushCall { s with callDepth := s.callDepth + 1 } scope members

theorem globals_mapTop (s : State) (f : Scope → Scope) : (s.mapTop f).globals = s.globals := by
  unfold mapTop
  split <;> rfl

theorem store_mapTop (s : State) (f : Scope → Scope) : (s.mapTop f).store = s.store := by
  unfold mapTop
  split <;> rfl

end State

namespace Exec

variable {α β : Type}

/-- The result of a step that completes. -/
def result? : EStateM.Result Failure State α → Option α
  | .ok a _ => some a
  | .error _ _ => none

/-- The failure of a step that fails. -/
def failure? : EStateM.Result Failure State α → Option Failure
  | .ok _ _ => none
  | .error f _ => some f

/-- The run was given up, by the failure that no run of the language ends in. -/
def GaveUp : EStateM.Result Failure State α → Prop
  | .ok _ _ => False
  | .error f _ => f = .emptyStack

instance (r : EStateM.Result Failure State α) : Decidable (GaveUp r) :=
  match r with
  | .ok _ _ => .isFalse id
  | .error f _ => inferInstanceAs (Decidable (f = .emptyStack))

theorem GaveUp.eq_error {r : EStateM.Result Failure State α} (h : GaveUp r) :
    ∃ s, r = .error .emptyStack s := by
  cases r with
  | ok a s => exact h.elim
  | error f s => exact ⟨s, congrArg (EStateM.Result.error · s) h⟩

/-- Begun in `s`, the step completes as `Q` says or fails as `E` says. -/
def Ends (x : Exec α) (s : State) (Q : α → State → Prop) (E : Failure → State → Prop) : Prop :=
  match x s with
  | .ok a s' => Q a s'
  | .error f s' => E f s'

section

variable {x : Exec α} {s s' : State} {Q : α → State → Prop} {E : Failure → State → Prop}

theorem Ends.mono {Q' : α → State → Prop} {E' : Failure → State → Prop} (h : Ends x s Q E)
    (hQ : ∀ a s', Q a s' → Q' a s') (hE : ∀ f s', E f s' → E' f s') : Ends x s Q' E' := by
  unfold Ends at h ⊢
  cases hx : x s with
  | ok a s' => exact hQ a s' (by simpa only [hx] using h)
  | error f s' => exact hE f s' (by simpa only [hx] using h)

theorem Ends.ok {a : α} (h : Ends x s Q E) (hx : x s = .ok a s') : Q a s' := by
  simpa only [Ends, hx] using h

theorem Ends.error {f : Failure} (h : Ends x s Q E) (hx : x s = .error f s') : E f s' := by
  simpa only [Ends, hx] using h

/-- What is so of every outcome. -/
theorem Ends.final {I : State → Prop} (h : Ends x s (fun _ t => I t) fun _ t => I t) :
    I (finalState (x s)) := by
  unfold Ends at h
  cases hx : x s with
  | ok a t => simpa only [hx, finalState] using h
  | error f t => simpa only [hx, finalState] using h

theorem ends_of_final {I : State → Prop} (h : I (finalState (x s))) :
    Ends x s (fun _ t => I t) fun _ t => I t := by
  unfold Ends
  cases hx : x s with
  | ok a t => simpa only [hx, finalState] using h
  | error f t => simpa only [hx, finalState] using h

theorem Ends.and {Q' : α → State → Prop} {E' : Failure → State → Prop} (h : Ends x s Q E)
    (h' : Ends x s Q' E') :
    Ends x s (fun a t => Q a t ∧ Q' a t) fun f t => E f t ∧ E' f t := by
  unfold Ends at h h' ⊢
  cases hx : x s with
  | ok a s' => exact ⟨by simpa only [hx] using h, by simpa only [hx] using h'⟩
  | error f s' => exact ⟨by simpa only [hx] using h, by simpa only [hx] using h'⟩

/-- A step does what its outcome says. -/
theorem ends_iff : Ends x s Q E ↔
    (∀ a s', x s = .ok a s' → Q a s') ∧ ∀ f s', x s = .error f s' → E f s' := by
  refine ⟨fun h => ⟨fun _ _ => h.ok, fun _ _ => h.error⟩, fun h => ?_⟩
  unfold Ends
  cases hx : x s with
  | ok a s' => exact h.1 a s' hx
  | error f s' => exact h.2 f s' hx

theorem Ends.bind {Q' : β → State → Prop} {f : α → Exec β} (h : Ends x s Q E)
    (hf : ∀ a s', Q a s' → Ends (f a) s' Q' E) : Ends (x >>= f) s Q' E := by
  unfold Ends at h hf ⊢
  simp only [Bind.bind, EStateM.bind]
  cases hx : x s with
  | ok a s' => exact hf a s' (by simpa only [hx] using h)
  | error f s' => simpa only [hx] using h

theorem ends_bind_ok {a : α} {f : α → Exec β} {R : β → State → Prop} (hx : x s = .ok a s') :
    Ends (x >>= f) s R E ↔ Ends (f a) s' R E := by
  unfold Ends
  simp only [Bind.bind, EStateM.bind, hx]

theorem ends_bind_error {e : Failure} {f : α → Exec β} {R : β → State → Prop}
    (hx : x s = .error e s') : Ends (x >>= f) s R E ↔ E e s' := by
  unfold Ends
  simp only [Bind.bind, EStateM.bind, hx]

/-- What follows a step may differ in states that the step does not lead to. -/
theorem Ends.bind_congr {f g : α → Exec β} (h : Ends x s (fun a t => f a t = g a t) E) :
    (x >>= f) s = (x >>= g) s := by
  change EStateM.bind x f s = EStateM.bind x g s
  unfold EStateM.bind
  cases hx : x s with
  | ok a t => exact h.ok hx
  | error e t => rfl

end

/-! ## Single steps -/

section

variable {s : State} {E : Failure → State → Prop}

@[simp] theorem ends_pure (a : α) (Q : α → State → Prop) : Ends (pure a) s Q E ↔ Q a s := Iff.rfl

@[simp] theorem ends_throw (f : Failure) (Q : α → State → Prop) :
    Ends (throw f : Exec α) s Q E ↔ E f s := Iff.rfl

@[simp] theorem ends_fail (cause : Cause) (line : Option Nat) (Q : α → State → Prop) :
    Ends (fail cause line : Exec α) s Q E ↔ E (.script cause line) s := Iff.rfl

@[simp] theorem ends_modify (f : State → State) (Q : Unit → State → Prop) :
    Ends (modify f) s Q E ↔ Q () (f s) := Iff.rfl

@[simp] theorem ends_set (t : State) (Q : PUnit → State → Prop) :
    Ends (set t) s Q E ↔ Q ⟨⟩ t := Iff.rfl

@[simp] theorem ends_get (Q : State → State → Prop) : Ends get s Q E ↔ Q s s := Iff.rfl

@[simp] theorem ends_get_bind (f : State → Exec β) (Q : β → State → Prop) :
    Ends (get >>= f) s Q E ↔ Ends (f s) s Q E := Iff.rfl

theorem ends_value_bind (c : Cell) (f : Value → Exec β) (Q : β → State → Prop) :
    Ends (value c >>= f) s Q E ↔ Ends (f (s.store.get c)) s Q E := Iff.rfl

theorem ends_storage_bind (f : Store → Exec β) (Q : β → State → Prop) :
    Ends (storage >>= f) s Q E ↔ Ends (f s.store) s Q E := Iff.rfl

@[simp] theorem ends_modify_bind (g : State → State) (f : Unit → Exec β) (Q : β → State → Prop) :
    Ends (modify g >>= f) s Q E ↔ Ends (f ()) (g s) Q E := Iff.rfl

@[simp] theorem ends_set_bind (t : State) (f : PUnit → Exec β) (Q : β → State → Prop) :
    Ends (set t >>= f) s Q E ↔ Ends (f ⟨⟩) t Q E := Iff.rfl

end

theorem bind_of_ok {x : Exec α} {f : α → Exec β} {s t : State} {a : α} (h : x s = .ok a t) :
    (x >>= f) s = f a t := by
  change EStateM.bind x f s = _
  rw [EStateM.bind, h]

theorem bind_of_error {x : Exec α} {f : α → Exec β} {s t : State} {e : Failure}
    (h : x s = .error e t) : (x >>= f) s = .error e t := by
  change EStateM.bind x f s = _
  rw [EStateM.bind, h]

theorem get_bind_apply {α : Type} (f : State → Exec α) (s : State) : (get >>= f) s = f s s := rfl

theorem value_bind_apply (c : Cell) (f : Value → Exec α) (s : State) :
    (value c >>= f) s = f (s.store.get c) s := rfl

theorem find?_bind_apply (name : String) (f : Option Cell → Exec α) (s : State) :
    (find? name >>= f) s = f (s.find? name) s := rfl

theorem findType?_bind_apply (name : String) (f : Option ObjectType → Exec α) (s : State) :
    (findType? name >>= f) s = f (s.findType? name) s := rfl

/-- A step that gives a result ends in some state. -/
theorem eq_ok_of_result? {α : Type} {x : Exec α} {s : State} {a : α}
    (h : result? (x s) = some a) : x s = .ok a (finalState (x s)) := by
  cases hx : x s with
  | ok b t =>
    rw [hx] at h
    cases h
    rfl
  | error f t =>
    rw [hx] at h
    cases h

/-! ## Calls -/

/-- What is left of a call when its scopes are made. -/
def activate (scope : Scope) (members : Option Scope) (line : Option Nat) (x : Exec Cell) :
    Exec Cell := do
  enterCall line
  let depth ← localDepth
  modify (·.pushCall scope members)
  ensuring (mapFailure (overrun line) x) (leaveCall depth)

theorem inCall_eq_activate (parameters : List String) (owner : Option ObjectRef) (args : List Cell)
    (line : Option Nat) (x : Exec Cell) :
    inCall parameters owner args line x = ownerScope owner >>= fun members =>
      argumentScope parameters args line >>= fun scope => activate scope members line x := rfl

/-- Where too many calls are active, another one fails. -/
theorem enterCall_of_le {line : Option Nat} {s : State} (h : s.maxCallDepth ≤ s.callDepth) :
    enterCall line s = .error (.script .callDepthExceeded line) s := by
  unfold enterCall
  rw [get_bind_apply, if_pos h]
  rfl

theorem enterCall_of_lt {line : Option Nat} {s : State} (h : s.callDepth < s.maxCallDepth) :
    enterCall line s = .ok () { s with callDepth := s.callDepth + 1 } := by
  unfold enterCall
  rw [get_bind_apply, if_neg (Int.not_le.2 h)]
  rfl

theorem activate_of_le {scope : Scope} {members : Option Scope} {line : Option Nat}
    {x : Exec Cell} {s : State} (h : s.maxCallDepth ≤ s.callDepth) :
    activate scope members line x s = .error (.script .callDepthExceeded line) s := by
  change EStateM.bind _ _ s = _
  rw [EStateM.bind, enterCall_of_le h]

theorem activate_of_lt {scope : Scope} {members : Option Scope} {line : Option Nat}
    {x : Exec Cell} {s : State} (h : s.callDepth < s.maxCallDepth) :
    activate scope members line x s =
      ensuring (mapFailure (overrun line) x) (leaveCall s.locals.length)
        (s.entered scope members) := by
  change EStateM.bind _ _ s = _
  rw [EStateM.bind, enterCall_of_lt h]
  cases members <;> rfl

/-! ## Scopes and realizations -/

theorem popLocalScope_of_cons {s : State} {top : Frame} {below : List Frame}
    (h : s.locals = top :: below) : popLocalScope s = .ok () { s with locals := below } := by
  obtain ⟨_, _, locals⟩ := s
  subst h
  rfl

theorem popInstant_of_cons {s : State} {top : Cell} {below : List Cell}
    (h : s.instants = top :: below) : popInstant s = .ok () { s with instants := below } := by
  obtain ⟨_, _, _, _, _, instants⟩ := s
  subst h
  rfl

/-! ## Single steps of the context

One rule for each step that binds a name, registers a type or takes from a stack: what is to be
shown of the states that it may lead to, and of its failures. -/

section

variable {s : State} {name : String} {c : Cell} {line : Option Nat} {Q : Unit → State → Prop}
  {E : Failure → State → Prop}

/-- A new global name is bound in the top global scope. -/
theorem Ends.addGlobal
    (bound : ∀ top below, s.globals = top :: below → s.findGlobal? name = none →
      Q () { s with globals := top.add name c :: below })
    (failed : ∀ cause, (s.findGlobal? name).isSome = true ∨ s.globals = [] →
      E (.script cause line) s) : (addGlobal name c line).Ends s Q E := by
  unfold Exec.addGlobal
  rw [ends_get_bind]
  dsimp only
  split
  · next found => exact failed _ (.inl found)
  · next missing =>
    split
    · next hg => exact failed _ (.inr hg)
    · next top below hg => exact bound top below hg (by simpa using missing)

theorem Ends.addLocal (bound : s.locals ≠ [] → Q () (s.mapTop (·.add name c)))
    (failed : s.locals = [] → E .emptyStack s) : (addLocal name c).Ends s Q E := by
  unfold Exec.addLocal
  rw [ends_get_bind]
  dsimp only
  split
  · next h => exact failed (by simpa using h)
  · next h => exact bound (by simpa using h)

/-- A new name is bound in the innermost local scope, unless there is none or the current call
declares the name as global. -/
theorem Ends.addName
    (inner : s.locals ≠ [] → s.isDeclaredGlobal name = false →
      (Exec.addLocal name c).Ends s Q E)
    (outer : (s.locals.isEmpty || s.isDeclaredGlobal name) = true →
      (Exec.addGlobal name c line).Ends s Q E) : (addName name c line).Ends s Q E := by
  unfold Exec.addName
  rw [ends_get_bind]
  split
  · next h =>
    simp only [Bool.and_eq_true, Bool.not_eq_true', List.isEmpty_eq_false_iff] at h
    exact inner h.1 h.2
  · next h =>
    rw [← Bool.not_or, Bool.not_eq_true', Bool.not_eq_false] at h
    exact outer h

theorem Ends.newName {R : Cell → State → Prop}
    (named : (Exec.addName name (s.store.alloc .undefined).1 line).Ends
      { s with store := (s.store.alloc .undefined).2 }
      (fun _ => R (s.store.alloc .undefined).1) E) :
    (newName name line).Ends s R E := by
  change (Exec.addName name (s.store.alloc .undefined).1 line >>= fun _ =>
    pure (s.store.alloc .undefined).1).Ends { s with store := (s.store.alloc .undefined).2 } R E
  exact named.bind fun _ _ h => h

/-- A name is evaluated to its cell; as a location, one that is not found is made. -/
theorem Ends.evaluateName {use : Use} {line : Nat} {R : Cell → State → Prop}
    (found : ∀ c, s.find? name = some c → R c s)
    (unknown : use = .operand → E (.script (.unknownIdentifier name) (some line)) s)
    (made : use = .location → s.find? name = none → (Exec.newName name (some line)).Ends s R E) :
    (evaluateName name use line).Ends s R E := by
  unfold Exec.evaluateName Ends
  rw [find?_bind_apply]
  cases hf : s.find? name with
  | some c => exact found c hf
  | none =>
    cases use with
    | operand => exact unknown rfl
    | location => exact made rfl hf

theorem Ends.addAnonymous (inner : s.locals ≠ [] → Q () (s.mapTop (·.addAnonymous c)))
    (outer : ∀ top below, s.globals = top :: below →
      Q () { s with globals := top.addAnonymous c :: below })
    (failed : s.globals = [] → E .emptyStack s) : (addAnonymous c).Ends s Q E := by
  unfold Exec.addAnonymous
  rw [ends_get_bind]
  split
  · next hl => exact inner (by simp [hl])
  · next top below _ hg => exact outer top below hg
  · next hg => exact failed hg

/-- A type is registered in the top global scope, unless it is registered already. -/
theorem Ends.addType {t : ObjectType}
    (known : ∀ old, s.findType? name = some old → old.definition = t.definition → Q () s)
    (added : ∀ top below, s.globals = top :: below → s.findType? name = none →
      Q () { s with globals := { top with types := top.types.insert name t } :: below })
    (ambiguous : E (.script (.ambiguousClass name) line) s)
    (failed : s.globals = [] → E .emptyStack s) : (addType name t line).Ends s Q E := by
  unfold Exec.addType
  rw [ends_get_bind]
  split
  · next old hf =>
    split
    · next same =>
      rw [Bool.and_eq_true, beq_iff_eq] at same
      exact known old hf same.2
    · exact ambiguous
  · next missing =>
    split
    · next hg => exact failed hg
    · next top below hg => exact added top below hg missing

/-- A function is bound as a new name where the declaration stands, unless its name is bound to it
already. -/
theorem Ends.declareFunction {f : FunctionDef Stmt}
    (known : ∀ c g owner, s.find? f.name = some c → s.store.get c = .function g owner →
      g.definition? = some f.id → Q () s)
    (ambiguous : E (.script (.ambiguousFunction f.name) (some f.line)) s)
    (outer : s.find? f.name = none → s.locals = [] →
      (Exec.addGlobal f.name (s.store.alloc f.toValue).1 (some f.line)).Ends
        { s with store := (s.store.alloc f.toValue).2 } Q E)
    (inner : s.find? f.name = none → s.locals ≠ [] →
      (Exec.addLocal f.name (s.store.alloc f.toValue).1).Ends
        { s with store := (s.store.alloc f.toValue).2 } Q E) :
    (declareFunction f).Ends s Q E := by
  unfold Exec.declareFunction Ends
  rw [find?_bind_apply]
  cases hf : s.find? f.name with
  | some c =>
    dsimp only
    rw [value_bind_apply]
    cases hv : s.store.get c with
    | function g owner =>
      by_cases same : (g.definition? == some f.id) = true
      · simp only [same, if_true]
        exact known c g owner hf hv (beq_iff_eq.1 same)
      · simp only [same]
        exact ambiguous
    | _ => exact ambiguous
  | none =>
    change (if s.locals.isEmpty then Exec.addGlobal f.name (s.store.alloc f.toValue).1 (some f.line)
      else Exec.addLocal f.name (s.store.alloc f.toValue).1).Ends _ Q E
    split
    · next hl => exact outer hf (by simpa using hl)
    · next hl => exact inner hf (by simpa using hl)

theorem Ends.setReturn
    (stored : ∀ old below, s.returns = old :: below → Q () { s with returns := c :: below })
    (outside : s.returns = [] → E (.script .returnOutside line) s) :
    (setReturn c line).Ends s Q E := by
  unfold Exec.setReturn
  rw [ends_get_bind]
  split
  · next hr => exact outside hr
  · next old below hr => exact stored old below hr

theorem Ends.popReturn {R : Cell → State → Prop}
    (taken : ∀ c below, s.returns = c :: below → R c { s with returns := below })
    (failed : s.returns = [] → E .emptyStack s) : popReturn.Ends s R E := by
  unfold Exec.popReturn
  rw [ends_get_bind]
  split
  · next hr => exact failed hr
  · next c below hr => exact taken c below hr

theorem Ends.popLocalScope
    (popped : ∀ top below, s.locals = top :: below → Q () { s with locals := below })
    (failed : s.locals = [] → E .emptyStack s) : popLocalScope.Ends s Q E := by
  unfold Exec.popLocalScope
  rw [ends_get_bind]
  split
  · next hl => exact failed hl
  · next top below hl => exact popped top below hl

theorem Ends.popInstant
    (popped : ∀ top below, s.instants = top :: below → Q () { s with instants := below })
    (failed : s.instants = [] → E .emptyStack s) : popInstant.Ends s Q E := by
  unfold Exec.popInstant
  rw [ends_get_bind]
  split
  · next hi => exact failed hi
  · next top below hi => exact popped top below hi

theorem Ends.enterCall
    (entered : s.callDepth < s.maxCallDepth → Q () { s with callDepth := s.callDepth + 1 })
    (exceeded : s.maxCallDepth ≤ s.callDepth → E (.script .callDepthExceeded line) s) :
    (enterCall line).Ends s Q E := by
  unfold Exec.enterCall
  rw [ends_get_bind]
  split
  · next h => exact exceeded h
  · next h => exact entered (Int.not_le.1 h)

end

/-! ## Steps around steps -/

theorem bind_congr_left {x y : Exec α} {s : State} (h : x s = y s) (f : α → Exec β) :
    (x >>= f) s = (y >>= f) s := by
  change EStateM.bind x f s = EStateM.bind y f s
  unfold EStateM.bind
  rw [h]

theorem ensuring_congr {x y : Exec α} {s : State} (h : x s = y s) (finish : Exec Unit) :
    ensuring x finish s = ensuring y finish s := by
  unfold ensuring
  rw [h]

theorem mapFailure_congr {x y : Exec α} {s : State} (h : x s = y s) (g : Failure → Failure) :
    mapFailure g x s = mapFailure g y s := by
  unfold mapFailure
  rw [h]

section

variable {x : Exec α} {s : State} {Q : α → State → Prop} {E : Failure → State → Prop}

theorem Ends.mapFailure {g : Failure → Failure} (h : Ends x s Q fun f s' => E (g f) s') :
    Ends (mapFailure g x) s Q E := by
  unfold Ends at h ⊢
  unfold Exec.mapFailure
  cases hx : x s with
  | ok a s' => simpa only [hx] using h
  | error f s' => simpa only [hx] using h

/-- A finisher that always completes decides where the step ends. -/
theorem Ends.ensuring {finish : Exec Unit}
    (h : Ends x s (fun a s' => Ends finish s' (fun _ => Q a) E)
      fun f s' => Ends finish s' (fun _ => E f) E) : Ends (ensuring x finish) s Q E := by
  unfold Ends at h ⊢
  unfold Exec.ensuring
  cases hx : x s with
  | ok a s' =>
    simp only [hx] at h ⊢
    cases hf : finish s' with
    | ok u t => simpa only [hf] using h
    | error e t => simpa only [hf] using h
  | error f s' =>
    simp only [hx] at h ⊢
    cases hf : finish s' with
    | ok u t => simpa only [hf] using h
    | error e t => simpa only [hf] using h

end

end Exec

/-! ## Values -/

/-- The integer that a value is, if it is one. -/
def Value.integer? : Value → Option Int
  | .integer n => some n
  | _ => none

theorem Value.integer?_eq_some {v : Value} {n : Int} : v.integer? = some n ↔ v = .integer n := by
  cases v <;> simp [integer?]

instance (v : Value) (n : Int) : Decidable (v = .integer n) :=
  decidable_of_iff _ Value.integer?_eq_some

end CellScript
