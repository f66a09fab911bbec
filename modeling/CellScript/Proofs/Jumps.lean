import CellScript.Proofs.Congruence.Free
import CellScript.Proofs.Session.Stacks

/-!
# Jumps do not escape their loops

The parser lets a `break` or `continue` stand only in a loop body of the same function, realization
and file, and a loop takes both flags back when it ends. So a flag for a jump that is up after a
statement was up before, unless the statement itself stands in a loop body.

Functions of a host may be called on the way, as long as they leave no flags behind.

* `Exec.RaisesOnly`: a step raises no flags but the given ones, and its programs keep their jumps in
  their loops;
* `raising`: this is a logic of programs, so every statement and every call keeps to it
  (`raising_withFuel`);
* `jumps_stay_in_loops`: what this says of parsed scripts.
-/

namespace CellScript

/-! ## Where statements stand -/

/-- Whether a statement is a loop. -/
def Stmt.isLoop : Stmt → Bool
  | .loop _ _ => true
  | .whileLoop _ _ _ => true
  | .doWhile _ _ _ => true
  | .forLoop _ _ _ _ _ => true
  | _ => false

mutual

/-- What is closed outside of loops is closed in them. -/
theorem Stmt.closed_of_outside {b : Bool} : ∀ {st : Stmt}, st.closed false = true →
    st.closed b = true
  | .block body _, h => by
    simp only [Stmt.closed] at h ⊢
    exact closedAll_of_outside h
  | .branch _ positive negative _, h => by
    simp only [Stmt.closed, Bool.and_eq_true] at h ⊢
    refine ⟨closed_of_outside h.1, ?_⟩
    cases negative with
    | none => rfl
    | some s =>
      have hs : s.closed false = true := h.2
      exact closed_of_outside hs
  | .break _, h | .continue _, h => by cases h
  | .realize _ _ _, h | .include _ _ _, h | .loop _ _, h | .whileLoop _ _ _, h | .doWhile _ _ _, h
  | .forLoop _ _ _ _ _, h | .function _, h | .classDef _ _ _ _ _, h => by
    simpa only [Stmt.closed] using h
  | .expression _, _ | .assign _ _ _, _ | .update _ _ _ _, _ | .nop _, _ | .return _ _, _
  | .global _ _, _ => by simp only [Stmt.closed]

theorem Stmt.closedAll_of_outside {b : Bool} : ∀ {ss : List Stmt},
    Stmt.closedAll false ss = true → Stmt.closedAll b ss = true
  | [], _ => rfl
  | s :: ss, h => by
    simp only [Stmt.closedAll, Bool.and_eq_true] at h ⊢
    exact ⟨closed_of_outside h.1, closedAll_of_outside h.2⟩

end

/-- A loop has its jumps inside of it wherever it stands. -/
theorem Stmt.closed_of_isLoop {b c : Bool} {st : Stmt} (hl : st.isLoop = true)
    (h : st.closed b = true) : st.closed c = true := by
  cases st with
  | loop _ _ | whileLoop _ _ _ | doWhile _ _ _ | forLoop _ _ _ _ _ =>
    simpa only [Stmt.closed] using h
  | _ => cases hl

/-- A statement among closed ones has its jumps in loops, as far as it does not stand in one. -/
theorem Stmt.At.closed {st : Stmt} {inLoop outer : Bool} {ss : List Stmt}
    (h : st.At inLoop outer ss) : Stmt.closedAll outer ss = true → st.closed inLoop = true := by
  have single {b : Bool} {s : Stmt} (hs : s.closed b = true) : Stmt.closedAll b [s] = true := by
    simpa [Stmt.closedAll] using hs
  induction h with
  | here => exact fun hs => (Stmt.closedAll_iff.1 hs) _ List.mem_cons_self
  | later _ ih =>
    intro hs
    simp only [Stmt.closedAll, Bool.and_eq_true] at hs
    exact ih hs.2
  | realize _ ih | «include» _ ih | block _ ih =>
    intro hs
    simp only [Stmt.closedAll, Stmt.closed, Bool.and_eq_true] at hs
    exact ih hs.1
  | positive _ ih =>
    intro hs
    simp only [Stmt.closedAll, Stmt.closed, Bool.and_eq_true] at hs
    exact ih (single hs.1.1)
  | negative _ ih =>
    intro hs
    simp only [Stmt.closedAll, Stmt.closed, Stmt.closedOption, Bool.and_eq_true] at hs
    exact ih (single hs.1.2)
  | loop _ ih | whileLoop _ ih | doWhile _ ih =>
    intro hs
    simp only [Stmt.closedAll, Stmt.closed, Bool.and_eq_true] at hs
    exact ih (single hs.1)
  | init _ ih =>
    intro hs
    simp only [Stmt.closedAll, Stmt.closed, Bool.and_eq_true] at hs
    exact ih (single (Stmt.closed_of_outside hs.1.1.1))
  | step _ ih =>
    intro hs
    simp only [Stmt.closedAll, Stmt.closed, Bool.and_eq_true] at hs
    exact ih (single (Stmt.closed_of_outside hs.1.1.2))
  | forBody _ ih =>
    intro hs
    simp only [Stmt.closedAll, Stmt.closed, Bool.and_eq_true] at hs
    exact ih (single hs.1.2)
  | function _ ih =>
    intro hs
    simp only [Stmt.closedAll, Stmt.closed, FunctionDef.closed_eq, Bool.and_eq_true] at hs
    exact ih hs.1
  | method hf _ ih =>
    intro hs
    simp only [Stmt.closedAll, Stmt.closed, Bool.and_eq_true] at hs
    exact ih (FunctionDef.closedAll_iff.1 hs.1 _ hf)

/-! ## Programs with a host -/

/-- Whether the function, if it is one of a script, keeps its jumps in its loops. -/
def Callable.loopBound : Callable → Bool
  | .script _ body _ => Stmt.closedAll false body
  | _ => true

/-- The whole language, with functions of a host, where jumps stay in their loops. -/
def Fragment.loopBound : Fragment where
  callable f := f.loopBound = true
  type t := ∀ m ∈ t.methods.entries, m.2.loopBound = true
  value v := match v with
    | .function f _ => f.loopBound = true
    | .objectType t => ∀ m ∈ t.methods.entries, m.2.loopBound = true
    | _ => True
  failure _ := True
  creates _ := True
  texts := True
  loops := True
  jumps := False
  type_iff _ := Iff.rfl
  data {v} h := by
    cases v with
    | function f owner => cases h
    | objectType t => cases h
    | _ => trivial
  value_function _ _ := Iff.rfl
  value_string _ := Iff.rfl
  colorMethod _ _ := rfl
  vectorMethod _ _ := rfl
  listMethod _ _ := rfl
  builtin _ := trivial
  script _ _ := trivial
  number _ := trivial

/-- Every script function in the state keeps its jumps in its loops. -/
structure State.LoopBound (s : State) : Prop where
  cells : s.store.Within .loopBound
  types : ∀ scope ∈ s.globals, ∀ t ∈ scope.types.entries, Fragment.loopBound.type t.2

/-- The second state differs from the first one in neither storage, flags nor types. -/
structure State.Aside (s t : State) : Prop where
  store : t.store = s.store
  flags : t.flags = s.flags
  types : ∀ scope ∈ t.globals, ∃ old ∈ s.globals, scope.types = old.types

/-- Begun with programs whose jumps stay in their loops, the step leads to such ones, and no flags
are up when it completes but those that were up and those in `l`. -/
def Exec.RaisesOnly (l : Flags) {α : Type} (Q : α → Prop) (x : Exec α) : Prop :=
  ∀ s : State, s.LoopBound → x.Ends s
    (fun a t => Q a ∧ t.LoopBound ∧ t.flags.Below (s.flags.union l))
    fun _ t => t.LoopBound

namespace State

variable {s t : State}

theorem Aside.of_eq (store : t.store = s.store) (flags : t.flags = s.flags)
    (globals : t.globals = s.globals) : s.Aside t :=
  ⟨store, flags, fun scope h => ⟨scope, globals ▸ h, rfl⟩⟩

theorem Aside.refl (s : State) : s.Aside s := .of_eq rfl rfl rfl

theorem Aside.mapTop (s : State) (f : Scope → Scope) : s.Aside (s.mapTop f) := by
  unfold State.mapTop
  split
  · exact .refl s
  · exact .of_eq rfl rfl rfl

/-- A change of the top global scope beside its types. -/
theorem Aside.mapGlobal {top a : Scope} {below : List Scope} (hg : s.globals = top :: below)
    (ha : a.types = top.types) : s.Aside { s with globals := a :: below } := by
  refine ⟨rfl, rfl, fun scope hscope => ?_⟩
  rcases List.mem_cons.1 hscope with rfl | hscope
  · exact ⟨top, hg ▸ List.mem_cons_self, ha⟩
  · exact ⟨scope, hg ▸ List.mem_cons_of_mem _ hscope, rfl⟩

theorem LoopBound.aside (hs : s.LoopBound) (h : s.Aside t) : t.LoopBound := by
  refine ⟨h.store ▸ hs.cells, fun scope hscope => ?_⟩
  obtain ⟨old, hold, htypes⟩ := h.types scope hscope
  rw [htypes]
  exact hs.types old hold

theorem LoopBound.value (hs : s.LoopBound) (c : Cell) :
    Fragment.loopBound.value (s.store.get c) := by
  unfold Store.get
  cases hv : s.store.cells[c.index]? with
  | none => exact trivial
  | some v => exact hs.cells v (Array.mem_of_getElem? hv)

theorem LoopBound.type (hs : s.LoopBound) {name : String} {t : ObjectType}
    (ht : s.findType? name = some t) : Fragment.loopBound.type t := by
  have htypes := hs.types
  unfold State.findType? at ht
  generalize s.globals = scopes at ht htypes
  induction scopes with
  | nil => cases ht
  | cons scope below ih =>
    unfold State.findTypeIn at ht
    split at ht
    · next u hu =>
      cases ht
      exact htypes scope List.mem_cons_self _ (Bindings.mem_of_lookup hu)
    · exact ih ht fun sc hsc => htypes sc (List.mem_cons_of_mem _ hsc)

/-- A closed function of a sound state keeps its jumps in its loops. -/
theorem Sound.loopBound (hs : s.Sound) : s.LoopBound := by
  have callable {f : Callable} (hf : f.closed = true) : f.loopBound = true := by
    cases f with
    | script _ _ _ => exact hf
    | _ => rfl
  refine ⟨fun v hv => ?_, fun scope hscope t ht m hm => callable (hs.types scope hscope t ht m hm)⟩
  have hclosed := hs.cells v hv
  cases v with
  | function f owner => exact callable hclosed
  | objectType t => exact fun m hm => callable (hclosed m hm)
  | _ => trivial

end State

namespace Flags

theorem below_union_left (f g : Flags) : f.Below (f.union g) := by
  simp +contextual [Below, union]

theorem Below.union_mono {f g h : Flags} (hg : g.Below h) : (f.union g).Below (f.union h) := by
  simp only [Below, union, Bool.or_eq_true]
  exact ⟨Or.imp_right hg.1, Or.imp_right hg.2.1, Or.imp_right hg.2.2⟩

theorem Below.union_trans {f g h l : Flags} (hg : g.Below (f.union l)) (hh : h.Below (g.union l)) :
    h.Below (f.union l) := by
  simp only [Below, union, Bool.or_eq_true] at hg hh ⊢
  exact ⟨fun e => (hh.1 e).elim hg.1 Or.inr, fun e => (hh.2.1 e).elim hg.2.1 Or.inr,
    fun e => (hh.2.2 e).elim hg.2.2 Or.inr⟩

end Flags

namespace Exec.RaisesOnly

variable {α β : Type} {l m : Flags} {P Q : α → Prop}

theorem pure {a : α} (h : Q a) : RaisesOnly l Q (pure a) :=
  fun s hs => ⟨h, hs, s.flags.below_union_left l⟩

theorem throw (f : Failure) : RaisesOnly l Q (throw f : Exec α) := fun _ hs => hs

theorem bind {R : β → Prop} {x : Exec α} {f : α → Exec β} (hx : RaisesOnly l P x)
    (hf : ∀ a, P a → RaisesOnly l R (f a)) : RaisesOnly l R (x >>= f) := by
  intro s hs
  refine Ends.bind (hx s hs) ?_
  rintro a t ⟨ha, ht, hflags⟩
  refine (hf a ha t ht).mono ?_ fun _ _ h => h
  rintro b u ⟨hb, hu, hflags'⟩
  exact ⟨hb, hu, hflags.union_trans hflags'⟩

theorem mono {x : Exec α} (hl : l.Below m) (hQ : ∀ a, P a → Q a) (h : RaisesOnly l P x) :
    RaisesOnly m Q x := fun s hs =>
  (h s hs).mono (fun a _ ⟨ha, ht, hflags⟩ => ⟨hQ a ha, ht, hflags.trans hl.union_mono⟩)
    fun _ _ h => h

theorem mapFailure {x : Exec α} (g : Failure → Failure) (h : RaisesOnly l Q x) :
    RaisesOnly l Q (mapFailure g x) := fun s hs => Ends.mapFailure (h s hs)

/-- A step that touches neither storage, flags nor types. -/
theorem of_aside {x : Exec α}
    (h : ∀ s, x.Ends s (fun a t => Q a ∧ s.Aside t) fun _ t => s.Aside t) : RaisesOnly l Q x :=
  fun s hs => (h s).mono
    (fun _ _ ⟨ha, ht⟩ => ⟨ha, hs.aside ht, ht.flags ▸ s.flags.below_union_left l⟩)
    fun _ _ ht => hs.aside ht

theorem update {f : State → State} (h : ∀ s : State, s.Aside (f s)) :
    RaisesOnly l (fun _ => True) (modify f) := of_aside fun s => ⟨trivial, h s⟩

theorem read {f : State → α} (h : ∀ s : State, s.LoopBound → Q (f s)) :
    RaisesOnly l Q (do return f (← get)) :=
  fun s hs => ⟨h s hs, hs, s.flags.below_union_left l⟩

theorem allocate {f : Store → α × Store}
    (h : ∀ s : Store, s.Within .loopBound → Q (f s).1 ∧ (f s).2.Within .loopBound) :
    RaisesOnly l Q (allocate f) := fun s hs =>
  ⟨(h s.store hs.cells).1, ⟨(h s.store hs.cells).2, hs.types⟩, s.flags.below_union_left l⟩

theorem newCell {v : Value} (hv : Fragment.loopBound.value v) :
    RaisesOnly l (fun _ => True) (newCell v) := by
  refine allocate fun s hs => ⟨trivial, fun w hw => ?_⟩
  rcases Array.mem_push.1 hw with hw | rfl
  · exact hs w hw
  · exact hv

theorem value (c : Cell) : RaisesOnly l Fragment.loopBound.value (value c) :=
  read fun _ hs => hs.value c

theorem find? (name : String) : RaisesOnly l (fun _ => True) (find? name) :=
  read fun _ _ => trivial

/-- What happens in the end raises nothing. -/
theorem ensuring {x : Exec α} {finish : Exec Unit} (hx : RaisesOnly l Q x)
    (hf : RaisesOnly .none (fun _ => True) finish) : RaisesOnly l Q (ensuring x finish) := by
  intro s hs
  refine Ends.ensuring ((hx s hs).mono ?_ ?_)
  · rintro a t ⟨ha, ht, hflags⟩
    refine (hf t ht).mono ?_ fun _ _ h => h
    rintro _ u ⟨-, hu, hflags'⟩
    exact ⟨ha, hu, hflags.union_trans (hflags'.trans (Flags.none_below l).union_mono)⟩
  · intro f t ht
    exact (hf t ht).mono (fun _ _ h => h.2.1) fun _ _ h => h

/-! ### Names and stacks -/

theorem addLocal (name : String) (c : Cell) : RaisesOnly l (fun _ => True) (addLocal name c) :=
  of_aside fun s => .addLocal (fun _ => ⟨trivial, .mapTop s _⟩) fun _ => .refl s

theorem addGlobal (name : String) (c : Cell) (line : Option Nat) :
    RaisesOnly l (fun _ => True) (addGlobal name c line) :=
  of_aside fun s => .addGlobal (fun _ _ hg _ => ⟨trivial, .mapGlobal hg rfl⟩) fun _ _ => .refl s

theorem addName (name : String) (c : Cell) (line : Option Nat) :
    RaisesOnly l (fun _ => True) (addName name c line) := fun s hs =>
  .addName (fun _ _ => addLocal name c s hs) fun _ => addGlobal name c line s hs

theorem addAnonymous (c : Cell) : RaisesOnly l (fun _ => True) (addAnonymous c) := by
  refine of_aside fun s => .addAnonymous (fun _ => ?_) (fun top below hg => ?_) fun _ => ?_
  · exact ⟨trivial, .mapTop s _⟩
  · exact ⟨trivial, .mapGlobal hg rfl⟩
  · exact .refl s

theorem setReturn (c : Cell) (line : Option Nat) :
    RaisesOnly l (fun _ => True) (setReturn c line) :=
  of_aside fun s => .setReturn (fun _ _ _ => ⟨trivial, .of_eq rfl rfl rfl⟩) fun _ => .refl s

theorem popReturn : RaisesOnly l (fun _ => True) popReturn :=
  of_aside fun s => .popReturn (fun _ _ _ => ⟨trivial, .of_eq rfl rfl rfl⟩) fun _ => .refl s

theorem popLocalScope : RaisesOnly l (fun _ => True) popLocalScope :=
  of_aside fun s => .popLocalScope (fun _ _ _ => ⟨trivial, .of_eq rfl rfl rfl⟩) fun _ => .refl s

theorem popInstant : RaisesOnly l (fun _ => True) popInstant :=
  of_aside fun s => .popInstant (fun _ _ _ => ⟨trivial, .of_eq rfl rfl rfl⟩) fun _ => .refl s

/-! ### Flags -/

theorem raise (f : Flags) : RaisesOnly f (fun _ => True) (raise f) :=
  fun _ hs => ⟨trivial, ⟨hs.cells, hs.types⟩, .refl _⟩

theorem clear (f : Flags) : RaisesOnly l (fun _ => True) (clear f) := by
  refine fun s hs => ⟨trivial, ⟨hs.cells, hs.types⟩, ?_⟩
  simp +contextual [State.clear, Flags.Below, Flags.diff, Flags.union]

/-- Flags that are taken back afterwards may be raised on the way. -/
theorem cleared {x : Exec Unit} (f : Flags) (hl : l.Below (m.union f))
    (hx : RaisesOnly l (fun _ => True) x) :
    RaisesOnly m (fun _ => True) (x >>= fun _ => Exec.clear f) := by
  intro s hs
  refine Ends.bind (hx s hs) ?_
  rintro _ t ⟨-, ht, hflags⟩
  refine ⟨trivial, ⟨ht.cells, ht.types⟩, ?_⟩
  simp only [State.clear, Flags.Below, Flags.diff, Flags.union, Bool.or_eq_true, Bool.and_eq_true,
    Bool.not_eq_true'] at hl hflags ⊢
  grind

/-- The result slot of a call takes `return` back. -/
theorem takeResult {x : Exec Unit} (hx : RaisesOnly .ofReturn (fun _ => True) x) :
    RaisesOnly .none (fun _ => True) (takeResult x) := by
  have pushed (c : Cell) : RaisesOnly .none (fun _ => True) (pushReturn c) :=
    update fun _ => .of_eq rfl rfl rfl
  have ran := (hx.cleared (m := .none) .ofReturn (by
    simp [Flags.Below, Flags.union, Flags.ofReturn, Flags.none])).bind fun _ _ => popReturn
  rw [bind_assoc] at ran
  exact (newCell (v := .undefined) trivial).bind fun c _ => (pushed c).bind fun _ _ => ran

/-! ### Steps around steps -/

theorem inBlock {x : Exec Unit} (hx : RaisesOnly l (fun _ => True) x) :
    RaisesOnly l (fun _ => True) (inBlock x) :=
  bind (P := fun _ => True) (update fun _ => .of_eq rfl rfl rfl) fun _ _ =>
    hx.ensuring popLocalScope

theorem inRealization {x : Exec Unit} (obj : Cell) (members : Scope)
    (hx : RaisesOnly l (fun _ => True) x) :
    RaisesOnly l (fun _ => True) (inRealization obj members x) := by
  have names : RaisesOnly l (fun _ => True) innermostNames := by
    refine of_aside fun s => ?_
    unfold innermostNames
    rw [ends_get_bind]
    split
    · exact ⟨trivial, .refl s⟩
    · exact ⟨trivial, .refl s⟩
  have opened : RaisesOnly l (fun _ => True) (modify (·.pushFunctionScope members)) :=
    update fun _ => .of_eq rfl rfl rfl
  have begun : RaisesOnly l (fun _ => True) (pushInstant obj) := update fun _ => .of_eq rfl rfl rfl
  exact opened.bind fun _ _ => begun.bind fun _ _ =>
    (hx.bind fun _ _ => names).ensuring (popInstant.bind fun _ _ => popLocalScope)

theorem activate {x : Exec Cell} (scope : Scope) (members : Option Scope) (line : Option Nat)
    (hx : RaisesOnly .none (fun _ => True) x) :
    RaisesOnly .none (fun _ => True) (activate scope members line x) := by
  have entered : RaisesOnly .none (fun _ => True) (enterCall line) :=
    of_aside fun s => .enterCall (fun _ => ⟨trivial, .of_eq rfl rfl rfl⟩) fun _ => .refl s
  have pushed : RaisesOnly .none (fun _ => True) (modify (·.pushCall scope members)) := by
    refine update fun s => ?_
    cases members <;> exact .of_eq rfl rfl rfl
  have left (depth : Nat) : RaisesOnly .none (fun _ => True) (leaveCall depth) :=
    update fun _ => .of_eq rfl rfl rfl
  exact entered.bind fun _ _ => bind (P := fun _ => True) (read fun _ _ => trivial) fun depth _ =>
    pushed.bind fun _ _ => (hx.mapFailure (overrun line)).ensuring (left depth)

/-! ### Loops and sequences -/

/-- A loop takes back what its jumps have raised. -/
theorem loopParts : LoopParts (fun x _ => RaisesOnly (.within true) (fun _ => True) x)
    fun x _ => RaisesOnly .ofReturn (fun _ => True) x where
  pure _ := pure trivial
  bind hx hf := hx.bind fun a _ => hf a
  outOfFuel := throw _
  clear := clear
  loopExit := read fun _ _ => trivial
  whole hx := (clear _).bind fun _ _ => hx.cleared .loopOwned
    (by simp [Flags.Below, Flags.union, Flags.within, Flags.ofReturn, Flags.loopOwned])

theorem runAll {execute : Stmt → Exec Unit} {ss : List Stmt}
    (h : ∀ st ∈ ss, RaisesOnly l (fun _ => True) (execute st)) :
    RaisesOnly l (fun _ => True) (runAll execute ss) := by
  induction ss with
  | nil => exact pure trivial
  | cons st ss ih =>
    refine (h st List.mem_cons_self).bind fun _ _ => ?_
    intro s hs
    rw [ends_get_bind]
    split
    · exact pure trivial s hs
    · exact ih (fun st hst => h st (List.mem_cons_of_mem _ hst)) s hs

end Exec.RaisesOnly

/-! ## The logic -/

open Exec (RaisesOnly)

/-- Raising only the given flags, whatever the storage holds. -/
def raisingSteps : StoreLogic .loopBound where
  Rel l _ Q x _ := RaisesOnly l Q x
  pure := RaisesOnly.pure
  bind := RaisesOnly.bind
  mono := RaisesOnly.mono
  throw f _ := RaisesOnly.throw f
  located line := RaisesOnly.mapFailure (Failure.located line)
  storage := RaisesOnly.read fun _ _ => trivial
  value := RaisesOnly.value
  allocate _ h := RaisesOnly.allocate h
  find? := RaisesOnly.find?
  findType? _ := RaisesOnly.read fun _ hs _ ht => hs.type ht
  instant? := RaisesOnly.read fun _ _ => trivial
  addAnonymous := RaisesOnly.addAnonymous
  print _ := RaisesOnly.update fun _ => .of_eq rfl rfl rfl
  log _ _ _ := RaisesOnly.update fun _ => .of_eq rfl rfl rfl
  randomBetween _ _ := RaisesOnly.of_aside fun _ => ⟨trivial, .of_eq rfl rfl rfl⟩
  raise := RaisesOnly.raise
  setReturn := RaisesOnly.setReturn

namespace Exec.RaisesOnly

theorem declareFunction {f : FunctionDef Stmt}
    (hf : Fragment.loopBound.callable (.script f.parameters f.body f.id)) :
    RaisesOnly .none (fun _ => True) (declareFunction f) := by
  refine (find? f.name).bind fun c _ => ?_
  split
  · refine (value _).bind fun v _ => ?_
    split
    · split
      · exact pure trivial
      · exact throw _
    · exact throw _
  · refine (newCell (v := .function (.script f.parameters f.body f.id) none) hf).bind fun c _ => ?_
    intro s hs
    rw [ends_get_bind]
    split
    · exact addGlobal f.name c _ s hs
    · exact addLocal f.name c s hs

theorem addType (name : String) {t : ObjectType} (line : Option Nat)
    (ht : Fragment.loopBound.type t) : RaisesOnly .none (fun _ => True) (addType name t line) := by
  intro s hs
  refine .addType (fun old _ _ => ?_) (fun top below hg _ => ?_) hs fun _ => hs
  · exact ⟨trivial, hs, s.flags.below_union_left .none⟩
  · refine ⟨trivial, ⟨hs.cells, fun scope hscope => ?_⟩, s.flags.below_union_left .none⟩
    rcases List.mem_cons.1 hscope with rfl | hscope
    · intro u hu
      rcases Bindings.mem_put hu with rfl | hu
      · exact ht
      · exact hs.types top (hg ▸ List.mem_cons_self) u hu
    · exact hs.types scope (hg ▸ List.mem_cons_of_mem _ hscope)

theorem prepareAll {body : List Stmt} (h : Fragment.loopBound.declaresAll body) :
    RaisesOnly .none (fun _ => True) (prepareAll body) := by
  have declarations : Fragment.loopBound.Declarations fun x _ =>
      RaisesOnly .none (fun _ => True) x :=
    { pure := pure trivial
      bind := fun hx hy => hx.bind fun _ _ => hy
      declareFunction := fun _ hf => declareFunction hf
      addType := fun name _ line ht => addType name line ht }
  exact declarations.prepareAll h

theorem evaluateName (name : String) (use : Use) (line : Nat) :
    RaisesOnly .none (fun _ => True) (evaluateName name use line) := by
  refine (find? name).bind fun c _ => ?_
  split
  · exact pure trivial
  · split
    · exact throw _
    · exact (newCell (v := .undefined) trivial).bind fun c _ =>
        (addName name c (some line)).bind fun _ _ => pure trivial

end Exec.RaisesOnly

/-- Raising only the given flags is a logic of all programs whose jumps stay in their loops. -/
def raising : ProgramLogic .loopBound where
  toStepLogic := raisingSteps.steps fun _ => RaisesOnly.update fun s => .mapTop s _
  Fresh l _ x _ := RaisesOnly l (fun _ => True) x
  jumps h := h.elim
  evaluateName name use line _ := RaisesOnly.evaluateName name use line
  fresh h := h
  prepared hd h := RaisesOnly.bind
    ((RaisesOnly.prepareAll hd).mono (Flags.none_below _) fun _ h => h) fun _ _ => h
  takeResult := RaisesOnly.takeResult
  inBlock := RaisesOnly.inBlock
  fillObject {x _} obj r h := raisingSteps.fillObject (l := .ofReturn) (y := x) obj r
    fun members _ => h.inRealization obj members
  loopBefore {c _ x _ u _} limit _ hc hx hu :=
    RaisesOnly.loopParts.loopBefore (d := c) (y := x) (v := u) limit
      (hc.mono (Flags.none_below _) fun _ h => h) hx
      (hu.mono (Flags.ofReturn_below_within _) fun _ h => h)
  loopAfter {c _ x _} limit _ hc hx := RaisesOnly.loopParts.loopAfter (d := c) (y := x) limit
    (hc.mono (Flags.none_below _) fun _ h => h) hx

/-! ## Interpreters -/

namespace Fragment

mutual

theorem declares_loopBound : ∀ {st : Stmt}, closed.declares st → loopBound.declares st
  | .function f, h => by
    unfold declares at h ⊢
    exact h
  | .classDef _ _ methods _ _, h => by
    unfold declares at h ⊢
    exact h
  | .include _ body _, h => by
    unfold declares at h ⊢
    exact declaresAll_loopBound h
  | .expression _, _ | .assign _ _ _, _ | .update _ _ _ _, _ | .realize _ _ _, _ | .nop _, _
  | .block _ _, _ | .branch _ _ _ _, _ | .loop _ _, _ | .whileLoop _ _ _, _ | .doWhile _ _ _, _
  | .forLoop _ _ _ _ _, _ | .break _, _ | .continue _, _ | .return _ _, _ | .global _ _, _ => by
    unfold declares
    trivial

theorem declaresAll_loopBound : ∀ {ss : List Stmt}, closed.declaresAll ss →
    loopBound.declaresAll ss
  | [], _ => trivial
  | _ :: _, h => ⟨declares_loopBound h.1, declaresAll_loopBound h.2⟩

end

end Fragment

/-- The parts of a closed statement are closed, with a host or without. -/
theorem Stmt.partsIn_loopBound {inLoop : Bool} {st : Stmt} (h : st.closed inLoop = true) :
    st.PartsIn .loopBound .closed inLoop := by
  have parts := Stmt.partsIn_closed h
  cases st with
  | realize _ _ _ | block _ _ => exact ⟨Fragment.declaresAll_loopBound parts.1, parts.2⟩
  | _ => exact parts

/-- The functions of a host leave programs whose jumps stay in their loops, and raise no flags. -/
def Host.RaisesNothing (host : Host) : Prop :=
  ∀ name, RaisesOnly .none (fun _ => True) (host name)

/-- A call leaves no flags up. -/
theorem Exec.RaisesOnly.invokeWith {host : Host} (hh : host.RaisesNothing) {p : Interp}
    (h : raising.AgreeOn .closed p p) {f : Callable} (hf : f.loopBound = true)
    (owner : Option ObjectRef) (args : List Cell) (line : Option Nat) :
    RaisesOnly .none (fun _ => True) (invokeWith host p f owner args line) := by
  refine raisingSteps.inCall (y := runCallable host p f line) _ owner args line
    fun scope members _ _ => activate scope members line ?_
  refine h.runCallable line hf (fun name _ _ => hh name) ?_
  rintro ps body id rfl
  exact ⟨Fragment.declaresAll_loopBound (Fragment.declaresAll_of_closed hf), Nodes.closed_all hf⟩

/-- Every part of the interpreter raises only what it may raise, whatever its fuel. -/
theorem raising_withFuel {host : Host} (hh : host.RaisesNothing) (n : Nat) :
    raising.AgreeOn .closed (Interp.withFuel host n) (Interp.withFuel host n) := by
  rw [Interp.withFuel_eq_tied]
  have fullText {p : Interp} (h : ∀ frames c line, RaisesOnly .none (fun _ => True)
      (p.text frames c line)) (c : Cell) (line : Option Nat) :
      RaisesOnly .none (fun _ => True) (Exec.fullText p c line) :=
    RaisesOnly.bind (P := fun _ => True) (RaisesOnly.read fun _ _ => trivial) fun k _ => h k c line
  have agree : raising.AgreeOn .closed (Interp.tied Exec.runAll host n)
        (Interp.tied Exec.runAll host n) ∧
      ∀ frames c line, RaisesOnly .none (fun _ => True)
        ((Interp.tied Exec.runAll host n).text frames c line) := by
    induction n with
    | zero =>
      refine ⟨⟨fun _ => RaisesOnly.throw _, fun _ => RaisesOnly.throw _,
        fun _ => RaisesOnly.runAll fun _ _ => RaisesOnly.throw _,
        fun _ _ _ _ => RaisesOnly.throw _, fun c line _ => fullText ?_ c line⟩, ?_⟩
      · exact fun _ _ _ => RaisesOnly.throw _
      · exact fun _ _ _ => RaisesOnly.throw _
    | succ n ih =>
      obtain ⟨ih, ihText⟩ := ih
      have texts : ∀ frames c line, RaisesOnly .none (fun _ => True)
          (Exec.textWith n (Interp.tied Exec.runAll host n) frames c line) :=
        ih.textWith trivial trivial ihText n
      have statement {inLoop : Bool} {st : Stmt} (hst : st.closed inLoop = true) :
          RaisesOnly (.within inLoop) (fun _ => True)
            (Exec.executeWith n (Interp.tied Exec.runAll host n) st) :=
        ih.executeWith n (Stmt.partsIn_loopBound hst)
      refine ⟨⟨fun _ => ih.evaluateWith (Expr.partsIn_closed _), statement, fun hss => ?_, ?_,
        fun c line _ => fullText texts c line⟩, texts⟩
      · exact RaisesOnly.runAll fun st hst => statement (hss st hst)
      · exact fun owner args line hf => RaisesOnly.invokeWith hh ih hf owner args line
  exact agree.1

/-! ## Runs -/

namespace Exec.RaisesOnly

variable {α : Type} {l : Flags} {Q : α → Prop}

theorem keeps {x : Exec α} (h : RaisesOnly l Q x) : Keeps State.LoopBound x :=
  fun s hs => (h s hs).mono (fun _ _ ht => ht.2.1) fun _ _ ht => ht

theorem trace (logger message : String) : RaisesOnly l (fun _ => True) (trace logger message) := by
  refine of_aside fun s => ?_
  unfold Exec.trace
  rw [ends_get_bind]
  split
  · exact ⟨trivial, .of_eq rfl rfl rfl⟩
  · exact ⟨trivial, .refl s⟩

theorem withFrames {x : Exec α} (hx : RaisesOnly l Q x) : RaisesOnly l Q (withFrames x) := by
  have framed {m : Flags} (n : State → Nat) :
      RaisesOnly m (fun _ => True) (modify fun s => { s with frames := n s }) :=
    update fun _ => .of_eq rfl rfl rfl
  intro s hs
  unfold Exec.withFrames
  rw [ends_get_bind]
  dsimp only
  split
  · exact hs
  · split
    · exact hs
    · exact ((framed _).bind fun _ _ => hx.ensuring (framed _)) s hs

theorem defineFunction (name : String) {f : Callable} (hf : f.loopBound = true) :
    RaisesOnly l (fun _ => True) (defineFunction name f) :=
  (trace _ _).bind fun _ _ => (newCell (v := .function f none) hf).bind fun c _ =>
    addGlobal name c none

theorem report (c : Cell) : RaisesOnly l (fun _ => True) (report c) := by
  intro s hs
  unfold Exec.report
  rw [ends_get_bind]
  split
  · rw [ends_get_bind]
    split
    · exact trace _ _ s hs
    · exact hs
  · exact pure trivial s hs

end Exec.RaisesOnly

namespace Exec

theorem keeps_loopBound_runScript {p : Interp} (h : raising.AgreeOn .closed p p) {script : Script}
    (hscript : Stmt.closedAll false script.statements = true) :
    Keeps State.LoopBound (runScript p script) := by
  have dropped (f : State → State) (hf : ∀ s, (f s).store = s.store ∧ (f s).globals = s.globals) :
      Keeps State.LoopBound (modify f) :=
    Keeps.update fun s hs => ⟨(hf s).1 ▸ hs.cells, (hf s).2 ▸ hs.types⟩
  have pushed (c : Cell) : RaisesOnly .none (fun _ => True) (pushReturn c) :=
    RaisesOnly.update fun _ => .of_eq rfl rfl rfl
  have program : RaisesOnly .ofReturn (fun _ => True) (do
      prepareAll script.statements
      p.run script.statements) :=
    h.prepareAndRun (Fragment.declaresAll_loopBound (Fragment.declaresAll_of_closed hscript))
      (Nodes.closed_all hscript)
  have started : Keeps State.LoopBound beginScript := by
    unfold beginScript
    refine (dropped State.reset fun _ => ⟨rfl, rfl⟩).bind fun _ => ?_
    refine (RaisesOnly.newCell (l := .none) (v := .undefined) trivial).keeps.bind fun c => ?_
    refine (pushed c).keeps.bind fun _ s hs => ?_
    rw [ends_get_bind]
    exact (RaisesOnly.trace (l := .none) _ _).keeps s hs
  have ended : Keeps State.LoopBound endScript := by
    unfold endScript
    refine (RaisesOnly.popReturn (l := .none)).keeps.bind fun c => ?_
    refine (dropped (fun s => { s with flags := .none }) fun _ => ⟨rfl, rfl⟩).bind fun _ => ?_
    refine (RaisesOnly.report (l := .none) c).keeps.bind fun _ s hs => ?_
    rwa [ends_pure]
  unfold runScript
  exact started.bind fun _ => (program.withFrames.keeps.mapFailure _).bind fun _ => ended

end Exec

/-! ## Parsed scripts -/

namespace Exec

variable {α : Type} {x : Exec α} {s t : State} {a : α}

/-- A step from a state without flags that may raise `return` only. -/
theorem RaisesOnly.no_jump {Q : α → Prop} (h : RaisesOnly .ofReturn Q x) (hs : s.LoopBound)
    (hflags : s.flags = .none) (hx : x s = .ok a t) :
    t.LoopBound ∧ t.flags.breaking = false ∧ t.flags.continuing = false := by
  obtain ⟨-, ht, hbelow⟩ := (h s hs).ok hx
  rw [hflags] at hbelow
  refine ⟨ht, ?_, ?_⟩
  · exact Bool.eq_false_iff.2 fun hb => absurd (hbelow.2.1 hb) (by decide)
  · exact Bool.eq_false_iff.2 fun hc => absurd (hbelow.2.2 hc) (by decide)

/-- A step from a state without flags that may raise none. -/
theorem RaisesOnly.no_flag {Q : α → Prop} (h : RaisesOnly .none Q x) (hs : s.LoopBound)
    (hflags : s.flags = .none) (hx : x s = .ok a t) : t.LoopBound ∧ t.flags = .none := by
  obtain ⟨-, ht, hbelow⟩ := (h s hs).ok hx
  rw [hflags] at hbelow
  exact ⟨ht, Flags.eq_none_of_below hbelow⟩

theorem eq_ok_of_failure? {r : EStateM.Result Failure State Unit} (h : failure? r = none) :
    r = .ok () (finalState r) := by
  cases r with
  | ok a t => rfl
  | error f t => cases h

end Exec

/-- Break and continue never escape their loop. Begun without flags, a loop of a parsed script, and
every statement that stands in no loop body of its own function, realization or file, completes with
both flags down, and every call of a function completes with no flag up. The states in which this is
so are those whose functions keep their jumps in their loops: all that a host can bring about, and
all that a parsed script leads to from such a state. -/
theorem jumps_stay_in_loops {host : Host} (hh : host.RaisesNothing) (n : Nat) {script : Script}
    (hp : script.Parsed) :
    (∀ (s t : State) (st : Stmt) (inLoop : Bool), s.LoopBound → s.flags = .none →
      st.At inLoop false script.statements → st.isLoop = true ∨ inLoop = false →
      (Interp.withFuel host n).execute st s = .ok () t →
      t.LoopBound ∧ t.flags.breaking = false ∧ t.flags.continuing = false) ∧
    (∀ (s t : State) (f : Cell) (args : List Cell) (line : Option Nat) (c : Cell), s.LoopBound →
      s.flags = .none → Exec.callCell (Interp.withFuel host n) f args line s = .ok c t →
      t.LoopBound ∧ t.flags = .none) ∧
    Exec.Keeps State.LoopBound (Exec.runScript (Interp.withFuel host n) script) ∧
    (∀ (name : String) (f : Callable), f.loopBound = true →
      Exec.Keeps State.LoopBound (Exec.defineFunction name f)) ∧
    ∀ (only : Session.Request → Prop) (session : Session), Session.Reachable host only session →
      session.state.LoopBound := by
  have interp := raising_withFuel hh n
  refine ⟨?_, ?_, ?_, ?_, ?_⟩
  · intro s t st inLoop hs hflags hat hout hx
    have hclosed : st.closed false = true := by
      rcases hout with hl | rfl
      · exact Stmt.closed_of_isLoop hl (hat.closed hp.closed)
      · exact hat.closed hp.closed
    have raises : RaisesOnly (.within false) (fun _ => True)
        ((Interp.withFuel host n).execute st) := interp.execute hclosed
    exact raises.no_jump hs hflags hx
  · intro s t f args line c hs hflags hx
    have raises : RaisesOnly .none (fun _ => True)
        (Exec.callCell (Interp.withFuel host n) f args line) := interp.callCell f args line
    exact raises.no_flag hs hflags hx
  · exact Exec.keeps_loopBound_runScript interp hp.closed
  · exact fun name f hf => (RaisesOnly.defineFunction (l := .none) name hf).keeps
  · intro only session hsession
    exact ((Session.idle_invariant host only).reachable hsession).sound.loopBound

/-- A loop in a loop: the inner `break` ends the inner loop only, the outer one after a call of a
host's function, and neither flag is left up. -/
theorem jumps_stay_in_loops_nested :
    let host : Host := fun _ => do return some (← Exec.newCell (.boolean true))
    let inner : Stmt := .whileLoop (.boolean true 1) (.break 1) 1
    let loop : Stmt := .loop (.block [inner, .branch (.call (.name "done" .operand 1) [] 1)
      (.break 1) none 1] 1) 1
    let s := finalState (Exec.defineFunction "done" (.host "done" []) (State.initial 200).restart)
    let after := finalState ((Interp.withFuel host 9).execute loop s)
    host.RaisesNothing ∧ s.LoopBound ∧ s.flags = .none ∧ after.flags.breaking = false ∧
      after.flags.continuing = false := by
  intro host inner loop s after
  have unfailing : Exec.failure? ((Interp.withFuel host 9).execute loop s) = none := by cbv
  have quiet : host.RaisesNothing := fun _ =>
    (RaisesOnly.newCell (v := .boolean true) trivial).bind fun _ _ => RaisesOnly.pure trivial
  have parsed : Script.Parsed ⟨[loop]⟩ := .inl ⟨⟨⟨[], "/"⟩, [], []⟩, 0, none,
    "loop \x7b while (true) break; if (done()) break; \x7d", by cbv⟩
  have bound : s.LoopBound := ((RaisesOnly.defineFunction (l := .none) "done" rfl).keeps _
    (Exec.idle_restart (by simp [State.initial, Store.empty])).sound.loopBound).final
  have completes : (Interp.withFuel host 9).execute loop s = .ok () after :=
    Exec.eq_ok_of_failure? unfailing
  have down := (jumps_stay_in_loops quiet 9 parsed).1 s after loop false bound rfl .here
    (.inl rfl) completes
  exact ⟨quiet, bound, rfl, down.2⟩

end CellScript
