import CellScript.Eval.Statement
import CellScript.Proofs.Located.Lines

/-!
# Located steps that run no program

Conversions, assignment, scopes and operators fail at the line that they are given. Standard
functions and built-in methods are given none and leave the place open; the call that runs them
closes it.
-/

namespace CellScript

namespace Exec.Located

variable {L : Nat → Prop} {o : Bool} {line : Option Nat}

/-! ## Conversions -/

theorem numberOf (v : Value) (hl : LineIn L o line) :
    Located L o (fun _ => True) (numberOf v line) := by
  unfold Exec.numberOf
  split
  · exact (ofNumber _).bind fun _ _ => pure trivial
  · exact pure trivial
  · exact storage.bind fun _ _ => ofNumber _
  · exact fail hl

theorem asReal (c : Cell) (hl : LineIn L o line) :
    Located L o (fun _ => True) (asReal c line) :=
  (value c).bind fun v _ => numberOf v hl

theorem asInteger (c : Cell) (hl : LineIn L o line) :
    Located L o (fun _ => True) (asInteger c line) := by
  refine (value c).bind fun v _ => ?_
  split
  · exact pure trivial
  · exact ofNumber _
  · exact storage.bind fun _ _ => (ofNumber _).bind fun _ _ => ofNumber _
  · exact fail hl

theorem asBoolean (c : Cell) (hl : LineIn L o line) :
    Located L o (fun _ => True) (asBoolean c line) := by
  refine (value c).bind fun v _ => ?_
  split
  · exact pure trivial
  · exact fail hl

theorem asColor (c : Cell) (hl : LineIn L o line) :
    Located L o (fun _ => True) (asColor c line) := by
  refine (value c).bind fun v _ => ?_
  split
  · exact pure trivial
  · exact fail hl

theorem asVector (c : Cell) (hl : LineIn L o line) :
    Located L o (fun _ => True) (asVector c line) := by
  refine (value c).bind fun v _ => ?_
  split
  · exact pure trivial
  · exact fail hl

theorem kindOf (c : Cell) : Located L o (fun _ => True) (kindOf c) :=
  (value c).bind fun _ _ => pure trivial

/-! ## New numbers, colors, vectors and lists -/

theorem keep (x : Number) : Located L o (fun _ => True) (keep x) := by
  unfold Exec.keep
  split
  · split
    · exact allocate_beside fun _ => rfl
    · exact pure trivial
  · exact pure trivial

theorem keepColor (c : Color Number) : Located L o (fun _ => True) (keepColor c) :=
  (keep _).bind fun _ _ => (keep _).bind fun _ _ => (keep _).bind fun _ _ =>
    (keep _).bind fun _ _ => pure trivial

theorem keepVector (v : Vector2 Number) : Located L o (fun _ => True) (keepVector v) :=
  (keep _).bind fun _ _ => (keep _).bind fun _ _ => pure trivial

theorem newReal (x : Number) : Located L o (fun _ => True) (newReal x) :=
  (keep _).bind fun _ _ => newCell trivial

theorem newColor (c : Color Number) : Located L o (fun _ => True) (newColor c) :=
  (keepColor _).bind fun _ _ => (allocate_beside fun _ => rfl).bind fun _ _ => newCell trivial

theorem newVector (v : Vector2 Number) : Located L o (fun _ => True) (newVector v) :=
  (keepVector _).bind fun _ _ => (allocate_beside fun _ => rfl).bind fun _ _ => newCell trivial

theorem newList (cs : Array Cell) : Located L o (fun _ => True) (newList cs) :=
  (allocate_beside fun _ => rfl).bind fun _ _ => newCell trivial

/-! ## Assignment -/

theorem detached {v : Value} (hv : v.Lined L) : Located L o (Value.Lined L) (detached v) := by
  unfold Exec.detached
  split
  · exact storage.bind fun _ _ => (ofNumber _).bind fun _ _ => pure trivial
  · exact (allocate_beside fun _ => rfl).bind fun _ _ => pure trivial
  · exact (allocate_beside fun _ => rfl).bind fun _ _ => pure trivial
  · exact (allocate_beside fun _ => rfl).bind fun _ _ => pure trivial
  · exact pure hv

theorem copyCell (c : Cell) : Located L o (fun _ => True) (copyCell c) :=
  (value c).bind fun _ hv => (detached hv).bind fun _ hv => newCell hv

theorem store (c : Cell) {v : Value} (hv : v.Lined L) (hl : LineIn L o line) :
    Located L o (fun _ => True) (store c v line) := by
  refine (value c).bind fun w _ => ?_
  split
  · next k _ =>
    exact (numberOf v hl).bind fun x _ => updateStore fun s => by cases k <;> rfl
  · refine (detached hv).bind fun u hu => ?_
    refine allocate (f := fun s => ((), s.set c u)) fun s hs => ⟨trivial, fun w hw => ?_⟩
    rcases Array.mem_or_eq_of_mem_setIfInBounds hw with hw | rfl
    · exact hs w hw
    · exact hu

theorem assign (target source : Cell) (hl : LineIn L o line) :
    Located L o (fun _ => True) (assign target source line) := by
  unfold Exec.assign
  split
  · exact pure trivial
  · exact (value source).bind fun v hv => store target hv hl

theorem increment (c : Cell) (delta : Int) (hl : LineIn L o line) :
    Located L o (fun _ => True) (increment c delta line) := by
  refine (value c).bind fun v _ => ?_
  split
  · exact store c trivial hl
  · exact (ofNumber _).bind fun _ _ => (keep _).bind fun _ _ => store c trivial hl
  · exact (numberOf _ hl).bind fun _ _ => (ofNumber _).bind fun _ _ => (keep _).bind fun _ _ =>
      store c trivial hl
  · exact fail hl

theorem negate (c : Cell) (hl : LineIn L o line) :
    Located L o (fun _ => True) (negate c line) := by
  refine (value c).bind fun v _ => ?_
  split
  · exact newCell trivial
  · exact newReal _
  · exact (numberOf _ hl).bind fun _ _ => newReal _
  · exact storage.bind fun _ _ => newColor _
  · exact storage.bind fun _ _ => newVector _
  · exact fail hl

theorem append (r : ListRef) (c : Cell) : Located L o (fun _ => True) (append r c) :=
  (copyCell c).bind fun _ _ => updateStore fun _ => rfl

/-! ## Members and elements -/

theorem newCell? {v : Option Value} (h : ∀ w ∈ v, w.Lined L) :
    Located L o (fun _ => True) (newCell? v) := by
  cases v with
  | none => exact pure trivial
  | some w => exact (newCell (h w rfl)).bind fun _ _ => pure trivial

theorem lined_colorMember? {r : ColorRef} {name : String} {v : Value}
    (h : v ∈ colorMember? r name) : v.Lined L := by
  unfold colorMember? at h
  split at h
  · cases h
    exact trivial
  · obtain ⟨m, -, rfl⟩ := Option.map_eq_some_iff.1 h
    exact trivial

theorem lined_vectorMember? {r : VectorRef} {name : String} {v : Value}
    (h : v ∈ vectorMember? r name) : v.Lined L := by
  unfold vectorMember? at h
  split at h
  · cases h
    exact trivial
  · obtain ⟨m, -, rfl⟩ := Option.map_eq_some_iff.1 h
    exact trivial

theorem lined_listMember? {r : ListRef} {name : String} {v : Value}
    (h : v ∈ listMember? r name) : v.Lined L := by
  obtain ⟨m, -, rfl⟩ := Option.map_eq_some_iff.1 h
  exact trivial

theorem member? (c : Cell) (name : String) : Located L o (fun _ => True) (member? c name) := by
  refine (value c).bind fun v _ => ?_
  split
  · exact newCell? fun _ h => lined_colorMember? h
  · exact newCell? fun _ h => lined_vectorMember? h
  · exact newCell? fun _ h => lined_listMember? h
  · exact storage.bind fun _ _ => pure trivial
  · exact pure trivial

theorem method? (c : Cell) (name : String) : Located L o (fun _ => True) (method? c name) := by
  refine (member? c name).bind fun m _ => ?_
  split
  · exact pure trivial
  · exact (kindOf _).bind fun _ _ => pure trivial

theorem newMember (owner : Cell) (name : String) (hl : LineIn L o line) :
    Located L o (fun _ => True) (newMember owner name line) := by
  refine (newCell (v := .undefined) trivial).bind fun c _ =>
    bind (P := fun _ => True) ?_ fun _ _ => pure trivial
  refine (value owner).bind fun v _ => ?_
  split
  · exact updateStore fun _ => rfl
  · exact fail hl

theorem element (c : Cell) (index : Int) (hl : LineIn L o line) :
    Located L o (fun _ => True) (element c index line) := by
  refine (value c).bind fun v _ => ?_
  split
  · next r _ =>
    refine storage.bind fun s _ => ?_
    cases index with
    | ofNat k =>
      dsimp only
      cases (s.list r)[k]? with
      | none => exact fail hl
      | some c => exact pure trivial
    | negSucc k => exact fail hl
  · exact fail hl

theorem bindMethod (r : ObjectRef) (name : String) {f : Callable} (hf : f.Lined L) :
    Located L o (fun _ => True) (bindMethod r name f) :=
  (newCell (v := .function f (some r)) hf).bind fun _ _ => updateStore fun _ => rfl

theorem makeObject {t : ObjectType} (ht : t.Lined L) :
    Located L o (fun _ => True) (makeObject t) := by
  have methods (r : ObjectRef) (ms : List (String × Callable)) (hms : ∀ m ∈ ms, m.2.Lined L) :
      Located L o (fun _ => True) (bindMethods r ms) := by
    induction ms with
    | nil => exact pure trivial
    | cons m ms ih =>
      exact (bindMethod r m.1 (hms m List.mem_cons_self)).bind fun _ _ =>
        ih fun m hm => hms m (List.mem_cons_of_mem _ hm)
  exact (allocate_beside fun _ => rfl).bind fun r _ => (methods r _ ht).bind fun _ _ => pure trivial

theorem newObject {t : ObjectType} (ht : t.Lined L) :
    Located L o (fun _ => True) (newObject t) :=
  (makeObject ht).bind fun _ _ => newCell trivial

theorem memberScope (r : ObjectRef) : Located L o (fun _ => True) (memberScope r) :=
  (newCell (v := .object r) trivial).bind fun _ _ => storage.bind fun _ _ => pure trivial

/-! ## Scopes -/

theorem find? (name : String) : Located L o (fun _ => True) (find? name) := read fun _ _ => trivial

theorem findType? (name : String) :
    Located L o (fun t => ∀ u ∈ t, u.Lined L) (findType? name) := read fun _ hs _ ht => hs.type ht

/-- A change of the innermost local scope. -/
theorem mapTop {s : State} (hs : s.Lined L) (f : Scope → Scope) : (s.mapTop f).Lined L := by
  unfold State.mapTop
  split
  · exact hs
  · exact ⟨hs.cells, hs.types⟩

theorem addLocal (name : String) (c : Cell) : Located L o (fun _ => True) (addLocal name c) :=
  ⟨fun _ hs => .addLocal (fun _ => ⟨trivial, mapTop hs _⟩) fun _ => ⟨trivial, hs⟩⟩

/-- A change of the top global scope where new types have their lines in `L`. -/
theorem mapGlobal {s : State} {top a : Scope} {below : List Scope} (hs : s.Lined L)
    (hg : s.globals = top :: below)
    (ha : ∀ t ∈ a.types.entries, t ∈ top.types.entries ∨ t.2.Lined L) :
    State.Lined L { s with globals := a :: below } := by
  refine ⟨hs.cells, fun scope hscope => ?_⟩
  rcases List.mem_cons.1 hscope with rfl | hscope
  · exact fun t ht => (ha t ht).elim (hs.types top (hg ▸ List.mem_cons_self) t) id
  · exact hs.types scope (hg ▸ List.mem_cons_of_mem _ hscope)

theorem addGlobal (name : String) (c : Cell) (hl : LineIn L o line) :
    Located L o (fun _ => True) (addGlobal name c line) := by
  refine ⟨fun s hs => .addGlobal (fun top below hg _ => ?_) fun _ _ => ⟨hl, hs⟩⟩
  exact ⟨trivial, mapGlobal hs hg fun _ => Or.inl⟩

theorem newName (name : String) (hl : LineIn L o line) :
    Located L o (fun _ => True) (newName name line) := by
  refine (newCell (v := .undefined) trivial).bind fun c _ =>
    bind (P := fun _ => True) ?_ fun _ _ => pure trivial
  refine choose fun s => ?_
  split
  · exact addLocal name c
  · exact addGlobal name c hl

theorem addType (name : String) {t : ObjectType} (ht : t.Lined L) (hl : LineIn L o line) :
    Located L o (fun _ => True) (addType name t line) := by
  refine ⟨fun s hs => .addType (fun old _ _ => ?_) (fun top below hg _ => ?_) ?_ fun _ => ?_⟩
  · exact ⟨trivial, hs⟩
  · refine ⟨trivial, mapGlobal hs hg fun u hu => ?_⟩
    rcases Bindings.mem_put hu with rfl | hu
    · exact Or.inr ht
    · exact Or.inl hu
  · exact ⟨hl, hs⟩
  · exact ⟨trivial, hs⟩

theorem addAnonymous (c : Cell) : Located L o (fun _ => True) (addAnonymous c) := by
  refine ⟨fun s hs => .addAnonymous (fun _ => ?_) (fun top below hg => ?_) fun _ => ?_⟩
  · exact ⟨trivial, mapTop hs _⟩
  · exact ⟨trivial, mapGlobal hs hg fun _ => Or.inl⟩
  · exact ⟨trivial, hs⟩

/-! ## Stacks and flags -/

theorem raise (f : Flags) : Located L o (fun _ => True) (raise f) :=
  update (fun _ => rfl) fun _ => rfl

theorem clear (f : Flags) : Located L o (fun _ => True) (clear f) :=
  update (fun _ => rfl) fun _ => rfl

theorem pushReturn (c : Cell) : Located L o (fun _ => True) (pushReturn c) :=
  update (fun _ => rfl) fun _ => rfl

theorem popReturn : Located L o (fun _ => True) popReturn :=
  ⟨fun _ hs => .popReturn (fun _ _ _ => ⟨trivial, hs.cells, hs.types⟩) fun _ => ⟨trivial, hs⟩⟩

theorem setReturn (c : Cell) (hl : LineIn L o line) :
    Located L o (fun _ => True) (setReturn c line) :=
  ⟨fun _ hs => .setReturn (fun _ _ _ => ⟨trivial, hs.cells, hs.types⟩) fun _ => ⟨hl, hs⟩⟩

theorem popLocalScope : Located L o (fun _ => True) popLocalScope :=
  ⟨fun _ hs => .popLocalScope (fun _ _ _ => ⟨trivial, hs.cells, hs.types⟩) fun _ => ⟨trivial, hs⟩⟩

theorem popInstant : Located L o (fun _ => True) popInstant :=
  ⟨fun _ hs => .popInstant (fun _ _ _ => ⟨trivial, hs.cells, hs.types⟩) fun _ => ⟨trivial, hs⟩⟩

theorem enterCall (hl : LineIn L o line) : Located L o (fun _ => True) (enterCall line) :=
  ⟨fun _ hs => .enterCall (fun _ => ⟨trivial, hs.cells, hs.types⟩) fun _ => ⟨hl, hs⟩⟩

theorem leaveCall (depth : Nat) : Located L o (fun _ => True) (leaveCall depth) :=
  update (fun _ => rfl) fun _ => rfl

theorem print (t : String) : Located L o (fun _ => True) (print t) :=
  update (fun _ => rfl) fun _ => rfl

theorem log (level : LogLevel) (logger t : String) :
    Located L o (fun _ => True) (log level logger t) :=
  update (fun _ => rfl) fun _ => rfl

theorem trace (logger message : String) :
    Located L o (fun _ => True) (trace logger message) := by
  refine choose fun s => ?_
  split
  · exact log _ _ _
  · exact pure trivial

/-! ## Operators on built-in values -/

theorem ofQuotient {α : Type} (x : Except NumberFault α) (hl : LineIn L o line) :
    Located L o (fun _ => True) (ofQuotient x line) := by
  unfold Exec.ofQuotient
  split
  · exact pure trivial
  · exact fail hl
  · exact throw trivial

theorem newColor? (x : Option (Except NumberFault (Color Number))) (hl : LineIn L o line) :
    Located L o (fun _ => True) (newColor? x line) := by
  cases x with
  | none => exact pure trivial
  | some x => exact (ofQuotient x hl).bind fun _ _ => (newColor _).bind fun _ _ => pure trivial

theorem newVector? (x : Option (Except NumberFault (Vector2 Number))) (hl : LineIn L o line) :
    Located L o (fun _ => True) (newVector? x line) := by
  cases x with
  | none => exact pure trivial
  | some x => exact (ofQuotient x hl).bind fun _ _ => (newVector _).bind fun _ _ => pure trivial

theorem arithmetic? (op : ArithmeticOp) (a b : Cell) (hl : LineIn L o line) :
    Located L o (fun _ => True) (arithmetic? op a b line) := by
  refine (value a).bind fun x _ => (value b).bind fun y _ => ?_
  split
  · exact (ofQuotient _ hl).bind fun _ _ => bind (newCell trivial) fun _ _ => pure trivial
  · exact storage.bind fun _ _ => newColor? _ hl
  · exact storage.bind fun _ _ => newVector? _ hl
  · split
    · exact pure trivial
    · exact (numberOf _ hl).bind fun _ _ => storage.bind fun _ _ => newColor? _ hl
  · split
    · exact pure trivial
    · exact (numberOf _ hl).bind fun _ _ => storage.bind fun _ _ => newColor? _ hl
  · split
    · exact pure trivial
    · exact (numberOf _ hl).bind fun _ _ => storage.bind fun _ _ => newVector? _ hl
  · split
    · exact pure trivial
    · exact (numberOf _ hl).bind fun _ _ => storage.bind fun _ _ => newVector? _ hl
  · split
    · exact (numberOf _ hl).bind fun _ _ => (numberOf _ hl).bind fun _ _ =>
        (ofQuotient _ hl).bind fun _ _ => (newReal _).bind fun _ _ => pure trivial
    · exact pure trivial

theorem compare? (op : RelationalOp) (a b : Cell) (hl : LineIn L o line) :
    Located L o (fun _ => True) (compare? op a b line) := by
  refine (value a).bind fun x _ => (value b).bind fun y _ => ?_
  split
  · exact pure trivial
  · exact pure trivial
  · exact storage.bind fun _ _ => pure trivial
  · exact storage.bind fun _ _ => pure trivial
  · split
    · exact (numberOf _ hl).bind fun _ _ => (numberOf _ hl).bind fun _ _ => pure trivial
    · exact pure trivial

theorem unsupported {α : Type} (a b : Cell) (symbol : String) (hl : LineIn L o line) :
    Located L o (fun _ => True) (unsupported a b symbol line : Exec α) :=
  (kindOf a).bind fun _ _ => (kindOf b).bind fun _ _ => fail hl

/-! ## Standard functions -/

-- What a standard function does has no line, so its failures have none.

theorem lineIn_none : LineIn L true none := rfl

theorem failOpen {α : Type} {Q : α → Prop} (cause : Cause) :
    Located L true Q (Exec.fail cause none : Exec α) := fail lineIn_none

theorem argument (name : String) : Located L true (fun _ => True) (argument name) := by
  refine (find? name).bind fun c _ => ?_
  split
  · exact pure trivial
  · exact failOpen _

theorem realArgument (name : String) : Located L true (fun _ => True) (realArgument name) :=
  (argument name).bind fun _ _ => asReal _ lineIn_none

theorem numericArgument (name : String) :
    Located L true (fun _ => True) (numericArgument name) := by
  refine (argument name).bind fun c _ => (value c).bind fun v _ => ?_
  split
  · exact pure trivial
  · exact asReal _ lineIn_none

theorem result {v : Value} (hv : v.Lined L) : Located L o (fun _ => True) (result v) :=
  (newCell hv).bind fun _ _ => pure trivial

theorem result_ofNumber (x : Number) : Located L o (fun _ => True) (Exec.result (.ofNumber x)) :=
  result (by cases x <;> exact trivial)

theorem realResult (x : Number) : Located L o (fun _ => True) (realResult x) :=
  (newReal x).bind fun _ _ => pure trivial

theorem colorResult (x : Except NumberFault (Color Number)) :
    Located L o (fun _ => True) (do return some (← Exec.newColor (← Exec.ofNumber x))) :=
  (ofNumber x).bind fun _ _ => (newColor _).bind fun _ _ => pure trivial

theorem functionResult (name : String) (x : Except NumberFault Float) :
    Located L true (fun _ => True) (functionResult name x) := by
  cases x with
  | ok y => exact realResult _
  | error f => exact failOpen _

theorem integerOfText (t : String) : Located L true (fun _ => True) (integerOfText t) := by
  unfold Exec.integerOfText
  split
  · exact result trivial
  · exact failOpen _

theorem realOfText (t : String) : Located L true (fun _ => True) (realOfText t) := by
  unfold Exec.realOfText
  split
  · exact realResult _
  · exact failOpen _

theorem randomBetween (a b : Int) : Located L o (fun _ => True) (randomBetween a b) :=
  ⟨fun _ hs => ⟨trivial, hs.cells, hs.types⟩⟩

theorem runBuiltin {text : Cell → Exec String}
    (h : ∀ c, Located L true (fun _ => True) (text c)) (b : Builtin) :
    Located L true (fun _ => True) (runBuiltin text b) := by
  cases b with
  | print =>
    exact (argument _).bind fun _ _ => (h _).bind fun _ _ =>
      (print _).bind fun _ _ => pure trivial
  | error => exact (argument _).bind fun _ _ => (h _).bind fun _ _ => failOpen _
  | toInt =>
    refine (argument _).bind fun c _ => (value c).bind fun v _ => ?_
    split
    · exact integerOfText _
    · exact (asInteger _ lineIn_none).bind fun _ _ => result trivial
  | toReal =>
    refine (argument _).bind fun c _ => (value c).bind fun v _ => ?_
    split
    · exact realOfText _
    · exact (asReal _ lineIn_none).bind fun _ _ => realResult _
  | random => exact (randomBetween _ _).bind fun _ _ => realResult _
  | randomInt =>
    exact (argument _).bind fun _ _ => (asInteger _ lineIn_none).bind fun _ _ =>
      (argument _).bind fun _ _ => (asInteger _ lineIn_none).bind fun _ _ =>
        (randomBetween _ _).bind fun _ _ => result trivial
  | real f => exact (realArgument _).bind fun _ _ => functionResult _ _
  | atan2 =>
    exact (realArgument _).bind fun _ _ => (realArgument _).bind fun _ _ => functionResult _ _
  | min =>
    exact (numericArgument _).bind fun _ _ => (numericArgument _).bind fun _ _ =>
      result_ofNumber _
  | max =>
    exact (numericArgument _).bind fun _ _ => (numericArgument _).bind fun _ _ =>
      result_ofNumber _
  | clamp =>
    exact (numericArgument _).bind fun _ _ => (numericArgument _).bind fun _ _ =>
      (numericArgument _).bind fun _ _ => result_ofNumber _
  | colorFromHue => exact (realArgument _).bind fun _ _ => colorResult _
  | colorFromHsv =>
    exact (realArgument _).bind fun _ _ => (realArgument _).bind fun _ _ =>
      (realArgument _).bind fun _ _ => colorResult _
  | extract part =>
    refine (argument _).bind fun _ _ => (asColor _ lineIn_none).bind fun _ _ =>
      storage.bind fun _ _ => (ofNumber _).bind fun _ _ => ?_
    cases part with
    | hue => exact realResult _
    | saturation => exact realResult _
    | brightness => exact realResult _
  | log f =>
    exact (argument _).bind fun _ _ => (h _).bind fun _ _ =>
      (log _ _ _).bind fun _ _ => pure trivial

/-! ## Methods of built-in values -/

theorem changeColor (r : ColorRef) (change : Color.Change Number Unit) :
    Located L o (fun _ => True) (changeColor r change) := by
  refine storage.bind fun s _ => ?_
  split
  · exact (keepColor _).bind fun c _ => bind (updateStore fun _ => rfl) fun _ _ => result trivial
  · exact (keepColor _).bind fun c _ => bind (updateStore fun _ => rfl) fun _ _ => throw trivial

theorem runColorMethod (m : ColorMethod) (r : ColorRef) :
    Located L true (fun _ => True) (runColorMethod m r) := by
  cases m with
  | saturate => exact bind (updateStore fun _ => rfl) fun _ _ => result trivial
  | lerp =>
    exact (argument _).bind fun _ _ => (asColor _ lineIn_none).bind fun _ _ =>
      (realArgument _).bind fun _ _ => storage.bind fun _ _ => colorResult _
  | blend =>
    exact (argument _).bind fun _ _ => (asColor _ lineIn_none).bind fun _ _ =>
      storage.bind fun _ _ => changeColor _ _

theorem changeVector (r : VectorRef) (f : Vector2 Number → Except NumberFault (Vector2 Number)) :
    Located L o (fun _ => True) (changeVector r f) :=
  storage.bind fun _ _ => (ofNumber _).bind fun _ _ => (keepVector _).bind fun _ _ =>
    bind (updateStore fun _ => rfl) fun _ _ => result trivial

theorem withVector (r : VectorRef)
    (f : Vector2 Number → Vector2 Number → Except NumberFault Number) :
    Located L true (fun _ => True) (withVector r f) :=
  (argument _).bind fun _ _ => (asVector _ lineIn_none).bind fun _ _ =>
    storage.bind fun _ _ => (ofNumber _).bind fun _ _ => realResult _

theorem runVectorMethod (m : VectorMethod) (r : VectorRef) :
    Located L true (fun _ => True) (runVectorMethod m r) := by
  cases m with
  | setZero => exact changeVector r fun _ => .ok .zero
  | isZero => exact storage.bind fun _ _ => result trivial
  | isUnitVector => exact storage.bind fun _ _ => (ofNumber _).bind fun _ _ => result trivial
  | flip => exact changeVector r fun v => .ok v.neg
  | normalize => exact changeVector _ _
  | perpendicularize => exact changeVector r fun v => .ok v.perpendicular
  | length => exact storage.bind fun _ _ => (ofNumber _).bind fun _ _ => realResult _
  | lengthSquared => exact storage.bind fun _ _ => (ofNumber _).bind fun _ _ => realResult _
  | rotate => exact (realArgument _).bind fun _ _ => changeVector _ _
  | rotateDeg =>
    exact (realArgument _).bind fun _ _ => (ofNumber _).bind fun _ _ => changeVector _ _
  | dot => exact withVector _ _
  | cross => exact withVector _ _
  | angle => exact withVector _ _

theorem runListMethod (m : ListMethod) (r : ListRef) :
    Located L true (fun _ => True) (runListMethod m r) := by
  cases m with
  | size => exact storage.bind fun _ _ => result trivial
  | append => exact (argument _).bind fun _ _ => (append _ _).bind fun _ _ => pure trivial

end Exec.Located

end CellScript
