import CellScript.Eval.Statement
import CellScript.Proofs.Closed

/-!
# Relations that all steps of the interpreter keep

A relation between steps of a run and steps of a run that is kept by every construct that the
interpreter is made of holds of all expressions, statements, calls and texts. `Congruence.Program`
and `Congruence.Interp` prove this once, and an invariant, a simulation between two states or a
comparison of two interpreters has only to provide the clauses below.

`Rel l Q x y` reads: the steps `x` and `y` are related, they raise no flags but those in `l` and set
a result only if `return` is among these, and what they give satisfies `Q`. The clauses for storage
take together what has to happen together: a new cell and the name, member or list that it goes to.
The clauses for loops follow from clauses for what loops are made of (`Exec.LoopParts`).

* `Fragment`: a part of the language, by what its programs hold and do. Programs are closed
  throughout (`Proofs.Closed`), so that outside of loops only `return` can be raised, and
  `Fragment.closed` is all of the language;
* `CellLogic`: the clauses for steps that run no program and neither make objects nor give them
  members, nor declare names as global;
* `StepLogic`: the clauses for all steps that run no program;
* `Congruence`: a relation on the whole language that does not tell states apart.
-/

namespace CellScript

namespace Flags

/-- The first flags are among the second ones. -/
def Below (f g : Flags) : Prop :=
  (f.returning → g.returning) ∧ (f.breaking → g.breaking) ∧ (f.continuing → g.continuing)

/-- What a statement may raise: a jump only in a loop, a `return` everywhere. -/
def within (inLoop : Bool) : Flags := ⟨true, inLoop, inLoop⟩

theorem none_below (f : Flags) : Below none f := by
  simp [Below, none]

theorem ofReturn_below_within (inLoop : Bool) : Below ofReturn (within inLoop) := by
  simp [Below, ofReturn, within]

theorem eq_none_of_below {f : Flags} (h : Below f (none.union none)) : f = none := by
  obtain ⟨r, b, c⟩ := f
  simpa [Below, union, none] using h

theorem Below.refl (f : Flags) : Below f f := ⟨id, id, id⟩

theorem Below.trans {f g h : Flags} (h₁ : Below f g) (h₂ : Below g h) : Below f h :=
  ⟨h₂.1 ∘ h₁.1, h₂.2.1 ∘ h₁.2.1, h₂.2.2 ∘ h₁.2.2⟩

end Flags

/-- The second storage differs from the first one only beside the cells, lists and objects, and
holds at least as many colors and vectors. -/
structure Store.Beside (s t : Store) : Prop where
  cells : t.cells = s.cells
  lists : t.lists = s.lists
  objects : t.objects = s.objects
  colors : s.colors.size ≤ t.colors.size
  vectors : s.vectors.size ≤ t.vectors.size

/-! ## Parts of the language -/

/-- A value that is no text, no function and no type. -/
def Value.isData : Value → Bool
  | .string _ => false
  | .function _ _ => false
  | .objectType _ => false
  | _ => true

/-- A part of the language: what its programs call, hold, make and fail with. -/
structure Fragment where
  callable : Callable → Prop
  type : ObjectType → Prop
  value : Value → Prop
  failure : Failure → Prop
  /-- The names that programs may make by assigning to them. -/
  creates : String → Prop
  /-- Whether programs know texts. -/
  texts : Prop
  /-- Whether programs have loops. -/
  loops : Prop
  /-- Whether jumps may stand outside of loops. -/
  jumps : Prop
  /-- Whether programs may declare names as global. -/
  globals : Prop := True
  type_iff (t : ObjectType) : type t ↔ ∀ m ∈ t.methods.entries, callable m.2
  data {v : Value} : v.isData = true → value v
  value_function (f : Callable) (owner : Option ObjectRef) :
    value (.function f owner) ↔ callable f
  value_string (t : String) : value (.string t) ↔ texts
  colorMethod (m : ColorMethod) (r : ColorRef) : callable (.colorMethod m r)
  vectorMethod (m : VectorMethod) (r : VectorRef) : callable (.vectorMethod m r)
  listMethod (m : ListMethod) (r : ListRef) : callable (.listMethod m r)
  builtin {b : Builtin} : callable (.builtin b) → texts
  script (cause : Cause) (line : Option Nat) : failure (.script cause line)
  number (f : NumberFault) : failure (.number f)

/-- The whole language, without functions of a host. -/
def Fragment.closed : Fragment where
  callable f := f.closed = true
  type := ObjectType.Closed
  value := Value.Closed
  failure f := f ≠ .emptyStack
  creates _ := True
  texts := True
  loops := True
  jumps := False
  type_iff _ := Iff.rfl
  data {v} h := by
    cases v with
    | string t => trivial
    | function f owner => cases h
    | objectType t => cases h
    | _ => trivial
  value_function _ _ := Iff.rfl
  value_string _ := Iff.rfl
  colorMethod _ _ := rfl
  vectorMethod _ _ := rfl
  listMethod _ _ := rfl
  builtin _ := trivial
  script _ _ := by simp
  number _ := by simp

/-! ## Clauses -/

/-- A relation between steps that all steps keep which run no program of the fragment, change no
object, and declare no name as global. -/
structure CellLogic (F : Fragment) where
  Rel : Flags → {α : Type} → (α → Prop) → Exec α → Exec α → Prop
  -- Sequences and failures.
  pure {l : Flags} {α : Type} {Q : α → Prop} {a : α} : Q a → Rel l Q (pure a) (pure a)
  bind {l : Flags} {α β : Type} {P : α → Prop} {Q : β → Prop} {x y : Exec α} {f g : α → Exec β} :
    Rel l P x y → (∀ a, P a → Rel l Q (f a) (g a)) → Rel l Q (x >>= f) (y >>= g)
  mono {l m : Flags} {α : Type} {P Q : α → Prop} {x y : Exec α} :
    l.Below m → (∀ a, P a → Q a) → Rel l P x y → Rel m Q x y
  throw {l : Flags} {α : Type} {Q : α → Prop} (f : Failure) :
    F.failure f → Rel l Q (throw f : Exec α) (throw f)
  located {l : Flags} {α : Type} {Q : α → Prop} {x y : Exec α} (line : Option Nat) :
    Rel l Q x y → Rel l Q (Exec.mapFailure (Failure.located line) x)
      (Exec.mapFailure (Failure.located line) y)
  -- What is read.
  storage : Rel .none (fun _ => True) Exec.storage Exec.storage
  value (c : Cell) : Rel .none F.value (Exec.value c) (Exec.value c)
  find? (name : String) : Rel .none (fun _ => True) (Exec.find? name) (Exec.find? name)
  findType? (name : String) :
    Rel .none (fun t => ∀ u ∈ t, F.type u) (Exec.findType? name) (Exec.findType? name)
  -- What is written.
  newCell (v : Value) : F.value v → Rel .none (fun _ => True) (Exec.newCell v) (Exec.newCell v)
  allocate {α : Type} (f : Store → α × Store) : (∀ s, Store.Beside s (f s).2) →
    Rel .none (fun _ => True) (Exec.allocate f) (Exec.allocate f)
  store (c : Cell) (v : Value) (line : Option Nat) : F.value v →
    Rel .none (fun _ => True) (Exec.store c v line) (Exec.store c v line)
  copyCell (c : Cell) : Rel .none (fun _ => True) (Exec.copyCell c) (Exec.copyCell c)
  append (r : ListRef) (c : Cell) :
    Rel .none (fun _ => True) (Exec.append r c) (Exec.append r c)
  evaluateList {f g : Expr → Exec Cell} (es : List Expr) :
    (∀ e, Rel .none (fun _ => True) (f e) (g e)) →
    Rel .none (fun _ => True) (Exec.evaluateList f es) (Exec.evaluateList g es)
  addAnonymous (c : Cell) :
    Rel .none (fun _ => True) (Exec.addAnonymous c) (Exec.addAnonymous c)
  print (t : String) : Rel .none (fun _ => True) (Exec.print t) (Exec.print t)
  log (level : LogLevel) (logger t : String) :
    Rel .none (fun _ => True) (Exec.log level logger t) (Exec.log level logger t)
  randomBetween (a b : Int) :
    Rel .none (fun _ => True) (Exec.randomBetween a b) (Exec.randomBetween a b)
  -- Flags and results.
  raise (f : Flags) : Rel f (fun _ => True) (Exec.raise f) (Exec.raise f)
  setReturn (c : Cell) (line : Option Nat) :
    Rel .ofReturn (fun _ => True) (Exec.setReturn c line) (Exec.setReturn c line)

/-- A relation between steps that all steps keep which run no program of the fragment. -/
structure StepLogic (F : Fragment) extends CellLogic F where
  makeObject (t : ObjectType) : F.type t →
    Rel .none (fun _ => True) (Exec.makeObject t) (Exec.makeObject t)
  newMember (owner : Cell) (name : String) (line : Option Nat) :
    Rel .none (fun _ => True) (Exec.newMember owner name line) (Exec.newMember owner name line)
  declareGlobal (name : String) :
    Rel .none (fun _ => True) (modify (·.declareGlobal name)) (modify (·.declareGlobal name))

/-- A relation between steps that all constructs of the language keep, wherever they stand. -/
structure Congruence extends StepLogic .closed where
  frames : Rel .none (fun _ => True) Exec.frames Exec.frames
  newName (name : String) (line : Option Nat) :
    Rel .none (fun _ => True) (Exec.newName name line) (Exec.newName name line)
  declareFunction (f : FunctionDef Stmt) : f.closed = true →
    Rel .none (fun _ => True) (Exec.declareFunction f) (Exec.declareFunction f)
  addType (name : String) (t : ObjectType) (line : Option Nat) : t.Closed →
    Rel .none (fun _ => True) (Exec.addType name t line) (Exec.addType name t line)
  -- What encloses other steps.
  takeResult {x y : Exec Unit} : Rel .ofReturn (fun _ => True) x y →
    Rel .none (fun _ => True) (Exec.takeResult x) (Exec.takeResult y)
  inCall {x y : Exec Cell} (parameters : List String) (owner : Option ObjectRef)
    (args : List Cell) (line : Option Nat) : Rel .none (fun _ => True) x y →
    Rel .none (fun _ => True) (Exec.inCall parameters owner args line x)
      (Exec.inCall parameters owner args line y)
  inBlock {l : Flags} {x y : Exec Unit} : Rel l (fun _ => True) x y →
    Rel l (fun _ => True) (Exec.inBlock x) (Exec.inBlock y)
  loopBefore {c d : Exec Bool} {x y u v : Exec Unit} (limit : Nat) :
    Rel .none (fun _ => True) c d → Rel (.within true) (fun _ => True) x y →
    Rel .ofReturn (fun _ => True) u v →
    Rel .ofReturn (fun _ => True) (Exec.loopBefore limit c x u) (Exec.loopBefore limit d y v)
  loopAfter {c d : Exec Bool} {x y : Exec Unit} (limit : Nat) :
    Rel .none (fun _ => True) c d → Rel (.within true) (fun _ => True) x y →
    Rel .ofReturn (fun _ => True) (Exec.loopAfter limit c x) (Exec.loopAfter limit d y)
  fillObject {x y : Exec Unit} (obj : Cell) (r : ObjectRef) : Rel .ofReturn (fun _ => True) x y →
    Rel .ofReturn (fun _ => True) (Exec.fillObject obj r x) (Exec.fillObject obj r y)

/-! ## Loops -/

namespace Exec

theorem iterate_succ (n : Nat) (turn : Exec Bool) :
    iterate (n + 1) turn = turn >>= fun again => if again then iterate n turn else pure () := by
  funext s
  simp only [iterate, bind, EStateM.bind]
  cases turn s with
  | ok again s' => cases again <;> rfl
  | error f s' => rfl

/-- What loops are made of: `R` relates their turns, and `S` whole loops, which take flags back at
the beginning and at the end. -/
structure LoopParts (R : {α : Type} → Exec α → Exec α → Prop) (S : Exec Unit → Exec Unit → Prop) :
    Prop where
  pure {α : Type} (a : α) : R (pure a) (pure a)
  bind {α β : Type} {x y : Exec α} {f g : α → Exec β} :
    R x y → (∀ a, R (f a) (g a)) → R (x >>= f) (y >>= g)
  outOfFuel : R (throw .outOfFuel : Exec Unit) (throw .outOfFuel)
  clear (f : Flags) : R (clear f) (clear f)
  loopExit : R (isRaised .loopExit) (isRaised .loopExit)
  whole {x y : Exec Unit} : R x y →
    S (do Exec.clear .ofBreak; x; Exec.clear .loopOwned)
      (do Exec.clear .ofBreak; y; Exec.clear .loopOwned)

namespace LoopParts

variable {R : {α : Type} → Exec α → Exec α → Prop} {S : Exec Unit → Exec Unit → Prop}
  (h : LoopParts R S)

include h

theorem iterate {turn turn' : Exec Bool} (hturn : R turn turn') (n : Nat) :
    R (iterate n turn) (iterate n turn') := by
  induction n with
  | zero => exact h.outOfFuel
  | succ n ih =>
    rw [iterate_succ, iterate_succ]
    refine h.bind hturn fun again => ?_
    split
    · exact ih
    · exact h.pure ()

/-- Loops whose turns are counted in two ways. -/
theorem loopBefore_of_iterate {m n : Nat} {c d : Exec Bool} {x y u v : Exec Unit}
    (turns : ∀ {turn turn'}, R turn turn' → R (Exec.iterate m turn) (Exec.iterate n turn'))
    (hc : R c d) (hx : R x y) (hu : R u v) : S (loopBefore m c x u) (loopBefore n d y v) := by
  refine h.whole (turns ?_)
  refine h.bind h.loopExit fun stop => ?_
  split
  · exact h.pure false
  · refine h.bind hc fun again => ?_
    split
    · exact h.pure false
    · refine h.bind (h.clear _) fun _ => h.bind hx fun _ => h.bind h.loopExit fun stop => ?_
      split
      · exact h.pure false
      · exact h.bind hu fun _ => h.pure true

theorem loopAfter_of_iterate {m n : Nat} {c d : Exec Bool} {x y : Exec Unit}
    (turns : ∀ {turn turn'}, R turn turn' → R (Exec.iterate m turn) (Exec.iterate n turn'))
    (hc : R c d) (hx : R x y) : S (loopAfter m c x) (loopAfter n d y) := by
  refine h.whole (turns ?_)
  refine h.bind (h.clear _) fun _ => h.bind hx fun _ => h.bind h.loopExit fun stop => ?_
  split
  · exact h.pure false
  · exact hc

theorem loopBefore {c d : Exec Bool} {x y u v : Exec Unit} (limit : Nat) (hc : R c d)
    (hx : R x y) (hu : R u v) : S (loopBefore limit c x u) (loopBefore limit d y v) :=
  h.loopBefore_of_iterate (h.iterate · limit) hc hx hu

theorem loopAfter {c d : Exec Bool} {x y : Exec Unit} (limit : Nat) (hc : R c d) (hx : R x y) :
    S (loopAfter limit c x) (loopAfter limit d y) :=
  h.loopAfter_of_iterate (h.iterate · limit) hc hx

end LoopParts

end Exec

namespace CellLogic

variable {F : Fragment} (L : CellLogic F) {α β : Type} {l : Flags}

/-- Two steps are related and raise no flag. -/
abbrev Holds (x y : Exec α) : Prop := L.Rel .none (fun _ => True) x y

variable {L}

theorem Holds.weaken {x y : Exec α} (h : L.Holds x y) : L.Rel l (fun _ => True) x y :=
  L.mono l.none_below (fun _ h => h) h

theorem Holds.bind {x y : Exec α} {Q : β → Prop} {f g : α → Exec β} (h : L.Holds x y)
    (hf : ∀ a, L.Rel .none Q (f a) (g a)) : L.Rel .none Q (x >>= f) (y >>= g) :=
  L.bind h fun a _ => hf a

variable (L)

theorem holds_pure (a : α) : L.Holds (Pure.pure a) (Pure.pure a) := L.pure trivial

theorem fail {Q : α → Prop} (cause : Cause) (line : Option Nat) :
    L.Rel l Q (Exec.fail cause line) (Exec.fail cause line) :=
  L.throw _ (F.script cause line)

theorem ofNumber (x : Except NumberFault α) : L.Holds (Exec.ofNumber x) (Exec.ofNumber x) := by
  cases x with
  | ok a => exact L.holds_pure a
  | error f => exact L.throw _ (F.number f)

theorem forIn (xs : List α) {f g : α → Exec PUnit} (h : ∀ a ∈ xs, L.Holds (f a) (g a)) :
    L.Holds (forIn xs PUnit.unit fun a _ => f a >>= fun _ => Pure.pure (.yield PUnit.unit))
      (forIn xs PUnit.unit fun a _ => g a >>= fun _ => Pure.pure (.yield PUnit.unit)) := by
  induction xs with
  | nil => exact L.holds_pure _
  | cons a xs ih =>
    simp only [List.forIn_cons, bind_assoc, pure_bind]
    exact (h a List.mem_cons_self).bind fun _ => ih fun b hb => h b (List.mem_cons_of_mem _ hb)

theorem updateStore (f : Store → Store) (h : ∀ s, Store.Beside s (f s)) :
    L.Holds (Exec.updateStore f) (Exec.updateStore f) :=
  L.allocate (fun s => ((), f s)) h

end CellLogic

end CellScript
