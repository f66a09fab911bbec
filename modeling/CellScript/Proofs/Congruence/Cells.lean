import CellScript.Proofs.Congruence.Basic

/-!
# Related steps that run no program

Conversions, assignment, members, operators on built-in values and the standard functions are made
of the clauses of a cell logic, so they are related to themselves by any of them.
-/

namespace CellScript

namespace Store

variable (s : Store)

theorem newNan_beside : s.Beside s.newNan.2 := ⟨rfl, rfl, rfl, Nat.le_refl _, Nat.le_refl _⟩

theorem allocColor_beside (c : Color Number) : s.Beside (s.allocColor c).2 :=
  ⟨rfl, rfl, rfl, by simp [allocColor], Nat.le_refl _⟩

theorem allocVector_beside (v : Vector2 Number) : s.Beside (s.allocVector v).2 :=
  ⟨rfl, rfl, rfl, Nat.le_refl _, by simp [allocVector]⟩

theorem setColor_beside (r : ColorRef) (c : Color Number) : s.Beside (s.setColor r c) :=
  ⟨rfl, rfl, rfl, by simp [setColor], Nat.le_refl _⟩

theorem setVector_beside (r : VectorRef) (v : Vector2 Number) : s.Beside (s.setVector r v) :=
  ⟨rfl, rfl, rfl, Nat.le_refl _, by simp [setVector]⟩

end Store

namespace CellLogic

variable {F : Fragment} (L : CellLogic F) {l : Flags}

/-! ## Conversions -/

theorem numberOf (v : Value) (line : Option Nat) :
    L.Holds (Exec.numberOf v line) (Exec.numberOf v line) := by
  unfold Exec.numberOf
  split
  · exact (L.ofNumber _).bind fun _ => L.holds_pure _
  · exact L.holds_pure _
  · exact Holds.bind L.storage fun _ => L.ofNumber _
  · exact L.fail _ _

theorem asReal (c : Cell) (line : Option Nat) :
    L.Holds (Exec.asReal c line) (Exec.asReal c line) :=
  L.bind (L.value c) fun v _ => L.numberOf v line

theorem asInteger (c : Cell) (line : Option Nat) :
    L.Holds (Exec.asInteger c line) (Exec.asInteger c line) := by
  refine L.bind (L.value c) fun v _ => ?_
  split
  · exact L.holds_pure _
  · exact L.ofNumber _
  · exact Holds.bind L.storage fun _ => (L.ofNumber _).bind fun _ => L.ofNumber _
  · exact L.fail _ _

theorem asBoolean (c : Cell) (line : Option Nat) :
    L.Holds (Exec.asBoolean c line) (Exec.asBoolean c line) := by
  refine L.bind (L.value c) fun v _ => ?_
  split
  · exact L.holds_pure _
  · exact L.fail _ _

theorem asColor (c : Cell) (line : Option Nat) :
    L.Holds (Exec.asColor c line) (Exec.asColor c line) := by
  refine L.bind (L.value c) fun v _ => ?_
  split
  · exact L.holds_pure _
  · exact L.fail _ _

theorem asVector (c : Cell) (line : Option Nat) :
    L.Holds (Exec.asVector c line) (Exec.asVector c line) := by
  refine L.bind (L.value c) fun v _ => ?_
  split
  · exact L.holds_pure _
  · exact L.fail _ _

theorem kindOf (c : Cell) : L.Holds (Exec.kindOf c) (Exec.kindOf c) :=
  L.bind (L.value c) fun _ _ => L.holds_pure _

/-! ## New numbers, colors and vectors -/

theorem keep (x : Number) : L.Holds (Exec.keep x) (Exec.keep x) := by
  unfold Exec.keep
  split
  · split
    · exact L.allocate _ Store.newNan_beside
    · exact L.holds_pure _
  · exact L.holds_pure _

theorem keepColor (c : Color Number) : L.Holds (Exec.keepColor c) (Exec.keepColor c) :=
  (L.keep _).bind fun _ => (L.keep _).bind fun _ => (L.keep _).bind fun _ =>
    (L.keep _).bind fun _ => L.holds_pure _

theorem keepVector (v : Vector2 Number) : L.Holds (Exec.keepVector v) (Exec.keepVector v) :=
  (L.keep _).bind fun _ => (L.keep _).bind fun _ => L.holds_pure _

theorem newReal (x : Number) : L.Holds (Exec.newReal x) (Exec.newReal x) :=
  (L.keep _).bind fun _ => L.newCell _ (F.data rfl)

theorem newColor (c : Color Number) : L.Holds (Exec.newColor c) (Exec.newColor c) :=
  (L.keepColor _).bind fun c =>
    Holds.bind (L.allocate _ fun s => s.allocColor_beside c) fun _ => L.newCell _ (F.data rfl)

theorem newVector (v : Vector2 Number) : L.Holds (Exec.newVector v) (Exec.newVector v) :=
  (L.keepVector _).bind fun v =>
    Holds.bind (L.allocate _ fun s => s.allocVector_beside v) fun _ => L.newCell _ (F.data rfl)

/-! ## Assignment -/

theorem assign (target source : Cell) (line : Option Nat) :
    L.Holds (Exec.assign target source line) (Exec.assign target source line) := by
  unfold Exec.assign
  split
  · exact L.holds_pure _
  · exact L.bind (L.value source) fun v hv => L.store target v line hv

theorem increment (c : Cell) (delta : Int) (line : Option Nat) :
    L.Holds (Exec.increment c delta line) (Exec.increment c delta line) := by
  refine L.bind (L.value c) fun v _ => ?_
  split
  · exact L.store _ _ _ (F.data rfl)
  · exact (L.ofNumber _).bind fun _ => (L.keep _).bind fun _ => L.store _ _ _ (F.data rfl)
  · exact (L.numberOf _ _).bind fun _ => (L.ofNumber _).bind fun _ => (L.keep _).bind fun _ =>
      L.store _ _ _ (F.data rfl)
  · exact L.fail _ _

theorem negate (c : Cell) (line : Option Nat) :
    L.Holds (Exec.negate c line) (Exec.negate c line) := by
  refine L.bind (L.value c) fun v _ => ?_
  split
  · exact L.newCell _ (F.data rfl)
  · exact L.newReal _
  · exact (L.numberOf _ _).bind fun _ => L.newReal _
  · exact Holds.bind L.storage fun _ => L.newColor _
  · exact Holds.bind L.storage fun _ => L.newVector _
  · exact L.fail _ _

/-! ## Members and elements -/

theorem newCell? (v : Option Value) (h : ∀ w ∈ v, F.value w) :
    L.Holds (Exec.newCell? v) (Exec.newCell? v) := by
  cases v with
  | none => exact L.holds_pure _
  | some w => exact Holds.bind (L.newCell w (h w rfl)) fun _ => L.holds_pure _

theorem value_colorMember? {r : ColorRef} {name : String} {v : Value}
    (h : v ∈ Exec.colorMember? r name) : F.value v := by
  unfold Exec.colorMember? at h
  split at h
  · simp only [Option.mem_def, Option.some.injEq] at h
    exact h ▸ F.data rfl
  · obtain ⟨m, -, rfl⟩ := Option.map_eq_some_iff.1 h
    exact (F.value_function _ _).2 (F.colorMethod m r)

theorem value_vectorMember? {r : VectorRef} {name : String} {v : Value}
    (h : v ∈ Exec.vectorMember? r name) : F.value v := by
  unfold Exec.vectorMember? at h
  split at h
  · simp only [Option.mem_def, Option.some.injEq] at h
    exact h ▸ F.data rfl
  · obtain ⟨m, -, rfl⟩ := Option.map_eq_some_iff.1 h
    exact (F.value_function _ _).2 (F.vectorMethod m r)

theorem value_listMember? {r : ListRef} {name : String} {v : Value}
    (h : v ∈ Exec.listMember? r name) : F.value v := by
  obtain ⟨m, -, rfl⟩ := Option.map_eq_some_iff.1 h
  exact (F.value_function _ _).2 (F.listMethod m r)

theorem member? (c : Cell) (name : String) :
    L.Holds (Exec.member? c name) (Exec.member? c name) := by
  refine L.bind (L.value c) fun v _ => ?_
  split
  · exact L.newCell? _ fun _ h => value_colorMember? h
  · exact L.newCell? _ fun _ h => value_vectorMember? h
  · exact L.newCell? _ fun _ h => value_listMember? h
  · exact Holds.bind L.storage fun _ => L.holds_pure _
  · exact L.holds_pure _

theorem method? (c : Cell) (name : String) :
    L.Holds (Exec.method? c name) (Exec.method? c name) := by
  refine (L.member? c name).bind fun m => ?_
  split
  · exact L.holds_pure _
  · exact (L.kindOf _).bind fun _ => L.holds_pure _

theorem element (c : Cell) (index : Int) (line : Option Nat) :
    L.Holds (Exec.element c index line) (Exec.element c index line) := by
  refine L.bind (L.value c) fun v _ => ?_
  split
  · next r _ =>
    refine Holds.bind L.storage fun s => ?_
    cases index with
    | ofNat k =>
      dsimp only
      cases (s.list r)[k]? with
      | none => exact L.fail _ _
      | some c => exact L.holds_pure c
    | negSucc k => exact L.fail _ _
  · exact L.fail _ _

/-! ## Operators on built-in values -/

theorem ofQuotient {α : Type} (x : Except NumberFault α) (line : Option Nat) :
    L.Holds (Exec.ofQuotient x line) (Exec.ofQuotient x line) := by
  unfold Exec.ofQuotient
  split
  · exact L.holds_pure _
  · exact L.fail _ _
  · exact L.throw _ (F.number _)

theorem newColor? (x : Option (Except NumberFault (Color Number))) (line : Option Nat) :
    L.Holds (Exec.newColor? x line) (Exec.newColor? x line) := by
  cases x with
  | none => exact L.holds_pure _
  | some x => exact (L.ofQuotient x line).bind fun _ => (L.newColor _).bind fun _ => L.holds_pure _

theorem newVector? (x : Option (Except NumberFault (Vector2 Number))) (line : Option Nat) :
    L.Holds (Exec.newVector? x line) (Exec.newVector? x line) := by
  cases x with
  | none => exact L.holds_pure _
  | some x => exact (L.ofQuotient x line).bind fun _ => (L.newVector _).bind fun _ => L.holds_pure _

theorem arithmetic? (op : ArithmeticOp) (a b : Cell) (line : Option Nat) :
    L.Holds (Exec.arithmetic? op a b line) (Exec.arithmetic? op a b line) := by
  refine L.bind (L.value a) fun x _ => L.bind (L.value b) fun y _ => ?_
  split
  · exact (L.ofQuotient _ _).bind fun _ =>
      Holds.bind (L.newCell _ (F.data rfl)) fun _ => L.holds_pure _
  · exact Holds.bind L.storage fun _ => L.newColor? _ _
  · exact Holds.bind L.storage fun _ => L.newVector? _ _
  · split
    · exact L.holds_pure _
    · exact (L.numberOf _ _).bind fun _ => Holds.bind L.storage fun _ => L.newColor? _ _
  · split
    · exact L.holds_pure _
    · exact (L.numberOf _ _).bind fun _ => Holds.bind L.storage fun _ => L.newColor? _ _
  · split
    · exact L.holds_pure _
    · exact (L.numberOf _ _).bind fun _ => Holds.bind L.storage fun _ => L.newVector? _ _
  · split
    · exact L.holds_pure _
    · exact (L.numberOf _ _).bind fun _ => Holds.bind L.storage fun _ => L.newVector? _ _
  · split
    · exact (L.numberOf _ _).bind fun _ => (L.numberOf _ _).bind fun _ =>
        (L.ofQuotient _ _).bind fun _ => (L.newReal _).bind fun _ => L.holds_pure _
    · exact L.holds_pure _

theorem compare? (op : RelationalOp) (a b : Cell) (line : Option Nat) :
    L.Holds (Exec.compare? op a b line) (Exec.compare? op a b line) := by
  refine L.bind (L.value a) fun x _ => L.bind (L.value b) fun y _ => ?_
  split
  · exact L.holds_pure _
  · exact L.holds_pure _
  · exact Holds.bind L.storage fun _ => L.holds_pure _
  · exact Holds.bind L.storage fun _ => L.holds_pure _
  · split
    · exact (L.numberOf _ _).bind fun _ => (L.numberOf _ _).bind fun _ => L.holds_pure _
    · exact L.holds_pure _

theorem unsupported {α : Type} (a b : Cell) (symbol : String) (line : Option Nat) :
    L.Holds (Exec.unsupported a b symbol line : Exec α) (Exec.unsupported a b symbol line) :=
  (L.kindOf a).bind fun _ => (L.kindOf b).bind fun _ => L.fail _ _

/-! ## Standard functions -/

theorem argument (name : String) : L.Holds (Exec.argument name) (Exec.argument name) := by
  refine Holds.bind (L.find? name) fun c => ?_
  split
  · exact L.holds_pure _
  · exact L.fail _ _

theorem realArgument (name : String) : L.Holds (Exec.realArgument name) (Exec.realArgument name) :=
  (L.argument name).bind fun _ => L.asReal _ _

theorem numericArgument (name : String) :
    L.Holds (Exec.numericArgument name) (Exec.numericArgument name) := by
  refine (L.argument name).bind fun c => L.bind (L.value c) fun v _ => ?_
  split
  · exact L.holds_pure _
  · exact L.asReal _ _

theorem result (v : Value) (h : F.value v) : L.Holds (Exec.result v) (Exec.result v) :=
  Holds.bind (L.newCell v h) fun _ => L.holds_pure _

theorem result_ofNumber (x : Number) :
    L.Holds (Exec.result (.ofNumber x)) (Exec.result (.ofNumber x)) :=
  L.result _ (by cases x <;> exact F.data rfl)

theorem realResult (x : Number) : L.Holds (Exec.realResult x) (Exec.realResult x) :=
  (L.newReal x).bind fun _ => L.holds_pure _

theorem colorResult (x : Except NumberFault (Color Number)) :
    L.Holds (do return some (← Exec.newColor (← Exec.ofNumber x)))
      (do return some (← Exec.newColor (← Exec.ofNumber x))) :=
  (L.ofNumber x).bind fun _ => (L.newColor _).bind fun _ => L.holds_pure _

theorem functionResult (name : String) (x : Except NumberFault Float) :
    L.Holds (Exec.functionResult name x) (Exec.functionResult name x) := by
  cases x with
  | ok y => exact L.realResult _
  | error f => exact L.fail _ _

theorem integerOfText (t : String) : L.Holds (Exec.integerOfText t) (Exec.integerOfText t) := by
  unfold Exec.integerOfText
  split
  · exact L.result _ (F.data rfl)
  · exact L.fail _ _

theorem realOfText (t : String) : L.Holds (Exec.realOfText t) (Exec.realOfText t) := by
  unfold Exec.realOfText
  split
  · exact L.realResult _
  · exact L.fail _ _

theorem runBuiltin {f g : Cell → Exec String} (h : ∀ c, L.Holds (f c) (g c)) (b : Builtin) :
    L.Holds (Exec.runBuiltin f b) (Exec.runBuiltin g b) := by
  cases b with
  | print =>
    exact (L.argument _).bind fun _ => (h _).bind fun _ =>
      Holds.bind (L.print _) fun _ => L.holds_pure _
  | error => exact (L.argument _).bind fun _ => (h _).bind fun _ => L.fail _ _
  | toInt =>
    refine (L.argument _).bind fun c => L.bind (L.value c) fun v _ => ?_
    split
    · exact L.integerOfText _
    · exact (L.asInteger _ _).bind fun _ => L.result _ (F.data rfl)
  | toReal =>
    refine (L.argument _).bind fun c => L.bind (L.value c) fun v _ => ?_
    split
    · exact L.realOfText _
    · exact (L.asReal _ _).bind fun _ => L.realResult _
  | random => exact Holds.bind (L.randomBetween _ _) fun _ => L.realResult _
  | randomInt =>
    exact (L.argument _).bind fun _ => (L.asInteger _ _).bind fun _ =>
      (L.argument _).bind fun _ => (L.asInteger _ _).bind fun _ =>
        Holds.bind (L.randomBetween _ _) fun _ => L.result _ (F.data rfl)
  | real f => exact (L.realArgument _).bind fun _ => L.functionResult _ _
  | atan2 =>
    exact (L.realArgument _).bind fun _ => (L.realArgument _).bind fun _ => L.functionResult _ _
  | min =>
    exact (L.numericArgument _).bind fun _ => (L.numericArgument _).bind fun _ =>
      L.result_ofNumber _
  | max =>
    exact (L.numericArgument _).bind fun _ => (L.numericArgument _).bind fun _ =>
      L.result_ofNumber _
  | clamp =>
    exact (L.numericArgument _).bind fun _ => (L.numericArgument _).bind fun _ =>
      (L.numericArgument _).bind fun _ => L.result_ofNumber _
  | colorFromHue => exact (L.realArgument _).bind fun _ => L.colorResult _
  | colorFromHsv =>
    exact (L.realArgument _).bind fun _ => (L.realArgument _).bind fun _ =>
      (L.realArgument _).bind fun _ => L.colorResult _
  | extract part =>
    refine (L.argument _).bind fun _ => (L.asColor _ _).bind fun _ =>
      Holds.bind L.storage fun _ => (L.ofNumber _).bind fun _ => ?_
    cases part with
    | hue => exact L.realResult _
    | saturation => exact L.realResult _
    | brightness => exact L.realResult _
  | log f =>
    exact (L.argument _).bind fun _ => (h _).bind fun _ =>
      Holds.bind (L.log _ _ _) fun _ => L.holds_pure _

/-! ## Methods of built-in values -/

theorem changeColor (r : ColorRef) (change : Color.Change Number Unit) :
    L.Holds (Exec.changeColor r change) (Exec.changeColor r change) := by
  refine Holds.bind L.storage fun s => ?_
  split
  · exact (L.keepColor _).bind fun c =>
      (L.updateStore _ fun s => s.setColor_beside r c).bind fun _ => L.result _ (F.data rfl)
  · exact (L.keepColor _).bind fun c =>
      (L.updateStore _ fun s => s.setColor_beside r c).bind fun _ => L.throw _ (F.number _)

theorem runColorMethod (m : ColorMethod) (r : ColorRef) :
    L.Holds (Exec.runColorMethod m r) (Exec.runColorMethod m r) := by
  cases m with
  | saturate =>
    exact (L.updateStore _ fun s => s.setColor_beside r _).bind fun _ => L.result _ (F.data rfl)
  | lerp =>
    exact (L.argument _).bind fun _ => (L.asColor _ _).bind fun _ => (L.realArgument _).bind
      fun _ => Holds.bind L.storage fun _ => L.colorResult _
  | blend =>
    exact (L.argument _).bind fun _ => (L.asColor _ _).bind fun _ =>
      Holds.bind L.storage fun _ => L.changeColor _ _

theorem changeVector (r : VectorRef) (f : Vector2 Number → Except NumberFault (Vector2 Number)) :
    L.Holds (Exec.changeVector r f) (Exec.changeVector r f) :=
  Holds.bind L.storage fun _ => (L.ofNumber _).bind fun _ => (L.keepVector _).bind fun v =>
    (L.updateStore _ fun s => s.setVector_beside r v).bind fun _ => L.result _ (F.data rfl)

theorem withVector (r : VectorRef)
    (f : Vector2 Number → Vector2 Number → Except NumberFault Number) :
    L.Holds (Exec.withVector r f) (Exec.withVector r f) :=
  (L.argument _).bind fun _ => (L.asVector _ _).bind fun _ =>
    Holds.bind L.storage fun _ => (L.ofNumber _).bind fun _ => L.realResult _

theorem runVectorMethod (m : VectorMethod) (r : VectorRef) :
    L.Holds (Exec.runVectorMethod m r) (Exec.runVectorMethod m r) := by
  cases m with
  | setZero => exact L.changeVector r fun _ => .ok .zero
  | isZero => exact Holds.bind L.storage fun _ => L.result _ (F.data rfl)
  | isUnitVector =>
    exact Holds.bind L.storage fun _ => (L.ofNumber _).bind fun _ => L.result _ (F.data rfl)
  | flip => exact L.changeVector r fun v => .ok v.neg
  | normalize => exact L.changeVector _ _
  | perpendicularize => exact L.changeVector r fun v => .ok v.perpendicular
  | length => exact Holds.bind L.storage fun _ => (L.ofNumber _).bind fun _ => L.realResult _
  | lengthSquared =>
    exact Holds.bind L.storage fun _ => (L.ofNumber _).bind fun _ => L.realResult _
  | rotate => exact (L.realArgument _).bind fun _ => L.changeVector _ _
  | rotateDeg =>
    exact (L.realArgument _).bind fun _ => (L.ofNumber _).bind fun _ => L.changeVector _ _
  | dot => exact L.withVector _ _
  | cross => exact L.withVector _ _
  | angle => exact L.withVector _ _

theorem runListMethod (m : ListMethod) (r : ListRef) :
    L.Holds (Exec.runListMethod m r) (Exec.runListMethod m r) := by
  cases m with
  | size => exact Holds.bind L.storage fun _ => L.result _ (F.data rfl)
  | append =>
    exact (L.argument _).bind fun _ => Holds.bind (L.append _ _) fun _ => L.holds_pure _

end CellLogic

theorem StepLogic.newObject {F : Fragment} (L : StepLogic F) (t : ObjectType) (h : F.type t) :
    L.Holds (Exec.newObject t) (Exec.newObject t) :=
  CellLogic.Holds.bind (L.makeObject t h) fun _ => L.newCell _ (F.data rfl)

end CellScript
