import CellScript.Proofs.Congruence.Free
import CellScript.Proofs.Congruence.Interp
import CellScript.Proofs.Outcome

/-!
# Steps that do not look at flags, limits and frames

Only sequences of statements and loops look at the flags, and only `return`, jumps, loops and calls
change them. The limit on calls is looked at where a call begins, and the frames of the machine
where a text is asked for. Most steps do neither: begun with other values of these they do the same,
and end with those values. `Exec.Blind O x` says so of the step `x`, for the changes of the three in
`O`. It holds of all steps on scopes, storage and output, and of steps made of such ones.
-/

namespace CellScript

/-- A change of the flags, the limit on calls and the frames. -/
structure Overlay where
  flags : Flags → Flags
  limit : Int → Int
  frames : Nat → Nat

/-- Changes of the flags alone. -/
def Overlay.OfFlags (o : Overlay) : Prop := o.limit = id ∧ o.frames = id

/-- Changes of the limit on calls alone. -/
def Overlay.OfLimit (o : Overlay) : Prop := o.flags = id ∧ o.frames = id

/-- Changes of the limit on calls and the frames alone. -/
def Overlay.OfRoom (o : Overlay) : Prop := o.flags = id

/-- The state after a change. -/
def State.overlay (s : State) (o : Overlay) : State :=
  { s with
    flags := o.flags s.flags
    maxCallDepth := o.limit s.maxCallDepth
    frames := o.frames s.frames }

theorem State.overlay_locals (s : State) (o : Overlay) : (s.overlay o).locals = s.locals := rfl

theorem State.overlay_globals (s : State) (o : Overlay) : (s.overlay o).globals = s.globals := rfl

namespace Exec

variable {α β : Type}

/-- An outcome after a change. -/
def overlaid (o : Overlay) : EStateM.Result Failure State α → EStateM.Result Failure State α
  | .ok a t => .ok a (t.overlay o)
  | .error e t => .error e (t.overlay o)

/-- The step neither looks at what is changed nor changes it. -/
def Blind (O : Overlay → Prop) (x : Exec α) : Prop :=
  ∀ o, O o → ∀ s : State, x (s.overlay o) = overlaid o (x s)

/-- An outcome with other flags. -/
def withFlags (f : Flags) : EStateM.Result Failure State α → EStateM.Result Failure State α
  | .ok a t => .ok a { t with flags := f }
  | .error e t => .error e { t with flags := f }

namespace Blind

/-! ## Flags -/

theorem other_flags {x : Exec α} (h : Blind Overlay.OfFlags x) (s : State) (f : Flags) :
    x { s with flags := f } = withFlags f (x s) := by
  have same := h ⟨fun _ => f, id, id⟩ ⟨rfl, rfl⟩ s
  change x { s with flags := f } = _ at same
  rw [same]
  cases x s <;> rfl

/-- A step that does not look at the flags ends with those that it began with. -/
theorem flags_ok {x : Exec α} (h : Blind Overlay.OfFlags x) {s t : State} {a : α}
    (hx : x s = .ok a t) : t.flags = s.flags := by
  have same := h.other_flags s s.flags
  change x s = _ at same
  rw [hx] at same
  simp only [withFlags, EStateM.Result.ok.injEq, true_and] at same
  rw [same]

theorem flags_error {x : Exec α} (h : Blind Overlay.OfFlags x) {s t : State} {e : Failure}
    (hx : x s = .error e t) : t.flags = s.flags := by
  have same := h.other_flags s s.flags
  change x s = _ at same
  rw [hx] at same
  simp only [withFlags, EStateM.Result.error.injEq, true_and] at same
  rw [same]

variable {O : Overlay → Prop}

/-! ## Putting steps together -/

theorem pure (a : α) : Blind O (pure a) := fun _ _ _ => rfl

theorem throw (e : Failure) : Blind O (throw e : Exec α) := fun _ _ _ => rfl

theorem bind {x : Exec α} {k : α → Exec β} (hx : Blind O x) (hk : ∀ a, Blind O (k a)) :
    Blind O (x >>= k) := by
  intro o ho s
  change EStateM.bind x k _ = overlaid o (EStateM.bind x k s)
  unfold EStateM.bind
  rw [hx o ho s]
  cases hs : x s with
  | ok a t => exact hk a o ho t
  | error e t => rfl

/-- A step that reads the state, but not what is changed. -/
theorem get_bind {k : State → Exec β} (h : ∀ s o, k (s.overlay o) = k s)
    (hk : ∀ s, Blind O (k s)) : Blind O (get >>= k) := by
  intro o ho s
  change k (s.overlay o) (s.overlay o) = overlaid o (k s s)
  rw [h s o]
  exact hk s o ho s

theorem read {g : State → α} (h : ∀ s o, g (s.overlay o) = g s) :
    Blind O (do return g (← get)) :=
  get_bind (fun s o => by rw [h s o]) fun _ => pure _

theorem update {g : State → State} (h : ∀ s o, g (s.overlay o) = (g s).overlay o) :
    Blind O (modify g) := by
  intro o _ s
  change EStateM.Result.ok () (g (s.overlay o)) = .ok () ((g s).overlay o)
  rw [h s o]

theorem updateGet {g : State → α × State}
    (h : ∀ s o, g (s.overlay o) = ((g s).1, (g s).2.overlay o)) : Blind O (modifyGet g) := by
  intro o _ s
  change EStateM.Result.ok (g (s.overlay o)).1 (g (s.overlay o)).2 =
    .ok (g s).1 ((g s).2.overlay o)
  rw [h s o]

theorem fail (cause : Cause) (line : Option Nat) : Blind O (fail cause line : Exec α) := throw _

theorem ofNumber (x : Except NumberFault α) : Blind O (ofNumber x) := by
  cases x with
  | ok a => exact pure a
  | error f => exact throw _

/-! ## Storage -/

theorem allocate (g : Store → α × Store) : Blind O (allocate g) := updateGet fun _ _ => rfl

theorem updateStore (g : Store → Store) : Blind O (updateStore g) := update fun _ _ => rfl

theorem newCell (v : Value) : Blind O (newCell v) := allocate _

theorem storage : Blind O storage := read fun _ _ => rfl

theorem value (c : Cell) : Blind O (value c) := read fun _ _ => rfl

theorem numberOf (v : Value) (line : Option Nat) : Blind O (numberOf v line) := by
  unfold Exec.numberOf
  split
  · exact (ofNumber _).bind fun _ => pure _
  · exact pure _
  · exact storage.bind fun _ => ofNumber _
  · exact fail _ _

theorem detached (v : Value) : Blind O (detached v) := by
  unfold Exec.detached
  split
  · exact storage.bind fun _ => (ofNumber _).bind fun _ => pure _
  · exact (allocate _).bind fun _ => pure _
  · exact (allocate _).bind fun _ => pure _
  · exact (allocate _).bind fun _ => pure _
  · exact pure _

theorem copyCell (c : Cell) : Blind O (copyCell c) :=
  (value c).bind fun _ => (detached _).bind fun _ => newCell _

theorem store (c : Cell) (v : Value) (line : Option Nat) : Blind O (store c v line) := by
  refine (value c).bind fun w => ?_
  split
  · exact (numberOf _ _).bind fun _ => updateStore _
  · exact (detached _).bind fun _ => updateStore _

theorem append (r : ListRef) (c : Cell) : Blind O (append r c) :=
  (copyCell c).bind fun _ => updateStore _

theorem bindMethod (r : ObjectRef) (name : String) (f : Callable) : Blind O (bindMethod r name f) :=
  (newCell _).bind fun _ => updateStore _

theorem bindMethods (r : ObjectRef) (ms : List (String × Callable)) :
    Blind O (bindMethods r ms) := by
  induction ms with
  | nil => exact pure _
  | cons m ms ih => exact (bindMethod r m.1 m.2).bind fun _ => ih

theorem makeObject (t : ObjectType) : Blind O (makeObject t) :=
  (allocate _).bind fun _ => (bindMethods _ _).bind fun _ => pure _

theorem newMember (owner : Cell) (name : String) (line : Option Nat) :
    Blind O (newMember owner name line) := by
  refine (newCell _).bind fun c => bind ((value owner).bind fun v => ?_) fun _ => pure _
  split
  · exact updateStore _
  · exact fail _ _

theorem memberScope (r : ObjectRef) : Blind O (memberScope r) :=
  (newCell _).bind fun _ => storage.bind fun _ => pure _

/-! ## Scopes -/

theorem mapTop_overlay (s : State) (o : Overlay) (g : Scope → Scope) :
    (s.overlay o).mapTop g = (s.mapTop g).overlay o := by
  obtain ⟨_, _, locals⟩ := s
  cases locals <;> rfl

/-- A step that reads the state and sets it anew. -/
theorem of_get {k : State → Exec β}
    (h : ∀ s o, k (s.overlay o) (s.overlay o) = overlaid o (k s s)) :
    Blind O (get >>= k) := fun o _ s => h s o

theorem addGlobal (name : String) (c : Cell) (line : Option Nat) :
    Blind O (addGlobal name c line) := by
  refine of_get fun s o => ?_
  have same : (s.overlay o).findGlobal? name = s.findGlobal? name := rfl
  rw [same]
  by_cases h : (s.findGlobal? name).isSome = true
  · simp only [h, if_true]
    rfl
  · obtain ⟨_, globals⟩ := s
    simp only [h]
    cases globals <;> rfl

theorem addLocal (name : String) (c : Cell) : Blind O (addLocal name c) := by
  refine of_get fun s o => ?_
  rw [State.overlay_locals]
  by_cases h : s.locals.isEmpty = true
  · simp only [h, if_true]
    rfl
  · simp only [h, mapTop_overlay]
    rfl

theorem newName (name : String) (line : Option Nat) : Blind O (newName name line) := by
  refine (newCell _).bind fun c => bind ?_ fun _ => pure _
  refine get_bind (fun _ _ => rfl) fun s => ?_
  split
  · exact addLocal name c
  · exact addGlobal name c line

theorem find? (name : String) : Blind O (find? name) := read fun _ _ => rfl

theorem findType? (name : String) : Blind O (findType? name) := read fun _ _ => rfl

theorem declareFunction (f : FunctionDef Stmt) : Blind O (declareFunction f) := by
  refine (find? f.name).bind fun c => ?_
  split
  · refine (value _).bind fun v => ?_
    split
    · split
      · exact pure _
      · exact fail _ _
    · exact fail _ _
  · refine (newCell _).bind fun c => get_bind (fun _ _ => rfl) fun s => ?_
    split
    · exact addGlobal _ _ _
    · exact addLocal _ _

theorem addType (name : String) (t : ObjectType) (line : Option Nat) :
    Blind O (addType name t line) := by
  refine of_get fun s o => ?_
  obtain ⟨_, globals⟩ := s
  simp only [State.findType?, State.overlay_globals]
  cases State.findTypeIn name globals with
  | some old =>
    by_cases h : (old.definition.isSome && old.definition == t.definition) = true
    · simp only [h, if_true]
      rfl
    · simp only [h]
      rfl
  | none => cases globals <;> rfl

theorem prepareAll (ss : List Stmt) : Blind O (prepareAll ss) := by
  have declarations : (Fragment.making fun _ => True).Declarations fun x _ => Blind O x :=
    { pure := pure ()
      bind := fun hx hy => hx.bind fun _ => hy
      declareFunction := fun f _ => declareFunction f
      addType := fun name t line _ => addType name t line }
  exact declarations.prepareAll ((Fragment.making_full _).declaresAll ss)

theorem declareGlobal (name : String) :
    Blind O (modify (·.declareGlobal name)) :=
  update fun s o => mapTop_overlay s o _

theorem addAnonymous (c : Cell) : Blind O (addAnonymous c) := by
  refine of_get fun s o => ?_
  obtain ⟨_, globals, locals⟩ := s
  cases locals <;> cases globals <;> rfl

/-! ## Stacks -/

theorem pushReturn (c : Cell) : Blind O (pushReturn c) := update fun _ _ => rfl

theorem popReturn : Blind O popReturn := by
  refine of_get fun s o => ?_
  obtain ⟨_, _, _, returns⟩ := s
  cases returns <;> rfl

theorem setReturn (c : Cell) (line : Option Nat) : Blind O (setReturn c line) := by
  refine of_get fun s o => ?_
  obtain ⟨_, _, _, returns⟩ := s
  cases returns <;> rfl

theorem popLocalScope : Blind O popLocalScope := by
  refine of_get fun s o => ?_
  obtain ⟨_, _, locals⟩ := s
  cases locals <;> rfl

theorem popInstant : Blind O popInstant := by
  refine of_get fun s o => ?_
  obtain ⟨_, _, _, _, _, instants⟩ := s
  cases instants <;> rfl

theorem pushInstant (c : Cell) : Blind O (pushInstant c) := update fun _ _ => rfl

theorem enterCall (line : Option Nat) : Blind Overlay.OfFlags (enterCall line) := by
  rintro ⟨flags, _, _⟩ ⟨rfl, rfl⟩ s
  by_cases h : s.maxCallDepth ≤ s.callDepth
  · rw [enterCall_of_le h]
    exact enterCall_of_le h
  · rw [enterCall_of_lt (Int.not_le.1 h)]
    exact enterCall_of_lt (Int.not_le.1 h)

theorem frames : Blind Overlay.OfFlags Exec.frames := by
  rintro ⟨flags, _, _⟩ ⟨rfl, rfl⟩ s
  rfl

theorem localDepth : Blind O localDepth := read fun _ _ => rfl

theorem leaveCall (depth : Nat) : Blind O (leaveCall depth) := update fun _ _ => rfl

theorem innermostNames : Blind O innermostNames := by
  refine get_bind (fun _ _ => rfl) fun s => ?_
  split
  · exact pure _
  · exact pure _

theorem ownerScope (owner : Option ObjectRef) : Blind O (ownerScope owner) := by
  cases owner with
  | none => exact pure _
  | some r => exact (memberScope r).bind fun _ => pure _

theorem argumentScope (parameters : List String) (args : List Cell) (line : Option Nat) :
    Blind O (argumentScope parameters args line) := by
  have bound : ∀ (scope : Scope) (ps : List String) (as : List Cell),
      Blind O (bindArguments scope ps as) := by
    intro scope ps as
    fun_induction bindArguments scope ps as with
    | case1 scope as => exact pure _
    | case2 scope p ps ih => exact (newCell _).bind fun c => ih c
    | case3 scope p ps a as ih => exact ih
  unfold Exec.argumentScope
  split
  · exact fail _ _
  · exact bound _ _ _

theorem promote (r : ObjectRef) (entries : List (String × Cell)) : Blind O (promote r entries) := by
  induction entries with
  | nil => exact pure _
  | cons entry rest ih =>
    obtain ⟨name, c⟩ := entry
    refine storage.bind fun store => ?_
    dsimp only
    split
    · refine (value c).bind fun v => ?_
      split
      · exact (bindMethod _ _ _).bind fun _ => ih
      · exact (updateStore _).bind fun _ => ih
    · exact ih

theorem bindParent (r : ObjectRef) : Blind O (bindParent r) := by
  refine bind (get_bind (fun _ _ => rfl) fun s => ?_) fun _ => updateStore _
  split
  · exact copyCell _
  · exact newCell _

end Blind

end Exec

end CellScript
