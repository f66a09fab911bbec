import CellScript.Proofs.Along
import CellScript.Proofs.Binding.Steady
import Mathlib.Logic.Relation

/-!
# How the global scopes grow

Programs change the global scopes in three ways: a cell without a name is kept in the top scope, a
name that no scope binds is bound there, and a type whose name no scope has is registered there. So
names and types that are in one scope at most stay so, whatever is run, and what is bound or
registered stays as it is.

* `Scope.Growth`: one such change;
* `Scope.Unambiguous`, `Scope.Kept`: what every change, and so every run, keeps;
* `growing_withFuel`: the interpreter changes the global scopes in no other way;
* `Exec.Atomic`: the steps that bind names and register types change no global scope when they fail.
-/

namespace CellScript

open Relation (ReflTransGen)
open Exec (Along)

/-! ## Changes -/

/-- One change that programs make to the global scopes. -/
inductive Scope.Growth : List Scope → List Scope → Prop
  | anonymous (top : Scope) (below : List Scope) (c : Cell) :
    Growth (top :: below) (top.addAnonymous c :: below)
  | name {top : Scope} {below : List Scope} {name : String} (c : Cell) :
    State.findGlobalIn name (top :: below) = none →
    Growth (top :: below) (top.add name c :: below)
  | type {top : Scope} {below : List Scope} {name : String} (t : ObjectType) :
    State.findTypeIn name (top :: below) = none →
    Growth (top :: below) ({ top with types := top.types.insert name t } :: below)

/-- No two of the scopes bind a name, or have a type of a name. -/
structure Scope.Unambiguous (scopes : List Scope) : Prop where
  names (name : String) : scopes.countP (·.has name) ≤ 1
  types (name : String) : scopes.countP (·.types.contains name) ≤ 1

/-- The second scopes are the first ones, of which the top one may have gained something. What has
been found is found. -/
structure Scope.Kept (old new : List Scope) : Prop where
  scopes : TopOnly Scope.Extends old new
  names (name : String) (c : Cell) :
    State.findGlobalIn name old = some c → State.findGlobalIn name new = some c
  types (name : String) (t : ObjectType) :
    State.findTypeIn name old = some t → State.findTypeIn name new = some t

namespace State

variable {name : String} {top : Scope} {below : List Scope}

theorem findGlobalIn_cons : findGlobalIn name (top :: below) = none ↔
    top.items.find? name = none ∧ findGlobalIn name below = none := by
  rw [findGlobalIn]
  cases top.items.find? name <;> simp

theorem findTypeIn_cons : findTypeIn name (top :: below) = none ↔
    top.types.find? name = none ∧ findTypeIn name below = none := by
  rw [findTypeIn]
  cases top.types.find? name <;> simp

/-- A name is not found where no scope binds it. -/
theorem countP_has (scopes : List Scope) :
    findGlobalIn name scopes = none ↔ scopes.countP (·.has name) = 0 := by
  induction scopes with
  | nil => simp [findGlobalIn]
  | cons top below ih =>
    rw [findGlobalIn_cons, ih, List.countP_cons, Scope.has, Bindings.contains]
    cases top.items.find? name <;> simp

theorem countP_types (scopes : List Scope) :
    findTypeIn name scopes = none ↔ scopes.countP (·.types.contains name) = 0 := by
  induction scopes with
  | nil => simp [findTypeIn]
  | cons top below ih =>
    rw [findTypeIn_cons, ih, List.countP_cons, Bindings.contains]
    cases top.types.find? name <;> simp

end State

namespace Scope

variable {old new : List Scope}

/-! ### What a change keeps -/

theorem Growth.unambiguous (h : Growth old new) (ho : Unambiguous old) : Unambiguous new := by
  cases h with
  | anonymous top below c => exact ⟨ho.names, ho.types⟩
  | @name top below name c missing =>
    refine ⟨fun other => ?_, ho.types⟩
    have before := ho.names other
    rw [List.countP_cons] at before ⊢
    rw [has_add]
    by_cases same : name = other
    · subst same
      rw [(State.countP_has below).1 (State.findGlobalIn_cons.1 missing).2]
      split <;> decide
    · rwa [beq_false_of_ne same, Bool.false_or]
  | @type top below name t missing =>
    refine ⟨ho.names, fun other => ?_⟩
    have before := ho.types other
    rw [List.countP_cons] at before ⊢
    rw [Bindings.contains_insert]
    by_cases same : name = other
    · subst same
      rw [(State.countP_types below).1 (State.findTypeIn_cons.1 missing).2]
      split <;> decide
    · rwa [beq_false_of_ne same, Bool.false_or]

theorem Kept.refl (scopes : List Scope) : Kept scopes scopes :=
  ⟨.refl Extends.refl _, fun _ _ h => h, fun _ _ h => h⟩

theorem Kept.trans {mid : List Scope} (h : Kept old mid) (h' : Kept mid new) : Kept old new :=
  ⟨.trans Extends.trans h.scopes h'.scopes, fun name c hc => h'.names name c (h.names name c hc),
    fun name t ht => h'.types name t (h.types name t ht)⟩

theorem Growth.kept (h : Growth old new) : Kept old new := by
  cases h with
  | anonymous top below c =>
    exact ⟨.cons below (top.extends_addAnonymous c), fun _ _ h => h, fun _ _ h => h⟩
  | @name top below name c missing =>
    refine ⟨.cons below (extends_add (State.findGlobalIn_cons.1 missing).1 c), fun other d hd => ?_,
      fun _ _ h => h⟩
    have ne : name ≠ other := by
      rintro rfl
      rw [missing] at hd
      cases hd
    simpa only [State.findGlobalIn, add, Bindings.find?_insert, ne, if_false] using hd
  | @type top below name t missing =>
    have extended : top.Extends { top with types := top.types.insert name t } :=
      ⟨.refl _, fun _ h => h, .insert (State.findTypeIn_cons.1 missing).1 t⟩
    refine ⟨.cons below extended, fun _ _ h => h, fun other u hu => ?_⟩
    have ne : name ≠ other := by
      rintro rfl
      rw [missing] at hu
      cases hu
    simpa only [State.findTypeIn, Bindings.find?_insert, ne, if_false] using hu

/-! ### What any number of changes keep -/

theorem unambiguous_of_growths (h : ReflTransGen Growth old new) (ho : Unambiguous old) :
    Unambiguous new := by
  induction h with
  | refl => exact ho
  | tail _ last ih => exact last.unambiguous ih

theorem kept_of_growths (h : ReflTransGen Growth old new) : Kept old new := by
  induction h with
  | refl => exact .refl _
  | tail _ last ih => exact ih.trans last.kept

end Scope

/-! ## Runs -/

/-- The global scopes of the second state come from those of the first one by such changes. -/
def State.Grown (s t : State) : Prop := ReflTransGen Scope.Growth s.globals t.globals

namespace State

variable {s t u : State}

theorem Grown.of_eq (h : t.globals = s.globals) : s.Grown t := by
  unfold Grown
  rw [h]

theorem Grown.trans (h : s.Grown t) (h' : t.Grown u) : s.Grown u := ReflTransGen.trans h h'

theorem Grown.single {new : List Scope} (h : Scope.Growth s.globals new) :
    s.Grown { s with globals := new } :=
  ReflTransGen.single h

theorem Grown.unambiguous (h : s.Grown t) (hs : Scope.Unambiguous s.globals) :
    Scope.Unambiguous t.globals :=
  Scope.unambiguous_of_growths h hs

theorem Grown.kept (h : s.Grown t) : Scope.Kept s.globals t.globals := Scope.kept_of_growths h

end State

/-- The global scopes grow. -/
def ProgramOrder.growing : ProgramOrder where
  Le := State.Grown
  From _ := True
  Made _ := True
  refl _ := .of_eq rfl
  trans := .trans
  keeps _ _ := trivial
  shared h := .of_eq h.globals
  anonymous c hg := .single (by rw [hg]; exact .anonymous _ _ c)
  addType t hg missing := .single (by
    rw [State.findType?, hg] at missing
    rw [hg]
    exact .type t missing)
  addGlobal c hg missing := .single (by
    rw [State.findGlobal?, hg] at missing
    rw [hg]
    exact .name c missing)
  allocObject _ _ := .of_eq rfl
  made _ := trivial
  setMember _ _ := .of_eq rfl
  promotes _ _ _ _ _ := .of_eq rfl

/-- The functions of a host change the global scopes as programs do. -/
def Host.Grows (host : Host) : Prop :=
  ∀ (name : String) (s : State), s.Grown (finalState (host name s))

/-- The interpreter changes the global scopes in no other way, whatever it runs. -/
theorem growing_withFuel {host : Host} (hh : host.Grows) (n : Nat) :
    ProgramOrder.growing.logic.AgreeOn .any (Interp.withFuel host n) (Interp.withFuel host n) :=
  ProgramOrder.followed (R := .growing) (fun name s _ => hh name s) n

/-! ## Steps that fail -/

/-- The global scopes are the same. -/
def ObjectOrder.level : ObjectOrder where
  Le s t := t.globals = s.globals
  From _ := True
  Made _ := True
  refl _ := rfl
  trans h h' := h'.trans h
  keeps _ _ := trivial
  quiet h := h.globals
  allocObject _ _ := rfl
  made _ := trivial
  setMember _ _ := rfl

namespace Exec

variable {α β : Type}

/-- If the step fails, it has left the global scopes as they were. -/
def Atomic (x : Exec α) : Prop :=
  ∀ s, x.Ends s (fun _ _ => True) fun _ t => t.globals = s.globals

theorem Atomic.pure (a : α) : Atomic (pure a) := fun _ => trivial

theorem Atomic.throw (f : Failure) : Atomic (throw f : Exec α) := fun _ => rfl

/-- What goes before an atomic step leaves the global scopes as they are. -/
theorem Atomic.after {x : Exec α} {f : α → Exec β} (hx : Along ObjectOrder.level (fun _ => True) x)
    (hf : ∀ a, Atomic (f a)) : Atomic (x >>= f) := fun s =>
  Ends.bind ((hx s trivial).mono (fun _ _ h => h.2) fun _ _ h => h) fun a t ht =>
    (hf a t).mono (fun _ _ _ => trivial) fun _ _ hu => hu.trans ht

/-- What comes after an atomic step does not fail. -/
theorem Atomic.give {x : Exec α} (hx : Atomic x) (b : β) : Atomic (x >>= fun _ => Pure.pure b) :=
  fun s => Ends.bind (hx s) fun _ _ _ => trivial

theorem addGlobal_atomic (name : String) (c : Cell) (line : Option Nat) :
    Atomic (addGlobal name c line) := fun _ =>
  .addGlobal (fun _ _ _ _ => trivial) fun _ _ => rfl

theorem addLocal_atomic (name : String) (c : Cell) : Atomic (addLocal name c) := fun _ =>
  .addLocal (fun _ => trivial) fun _ => rfl

theorem addName_atomic (name : String) (c : Cell) (line : Option Nat) :
    Atomic (addName name c line) := fun s =>
  .addName (fun _ _ => addLocal_atomic name c s) fun _ => addGlobal_atomic name c line s

theorem evaluateName_atomic (name : String) (use : Use) (line : Nat) :
    Atomic (evaluateName name use line) := by
  refine .after (x := Exec.find? name) (.read fun _ => trivial) fun c => ?_
  split
  · exact .pure _
  · cases use with
    | operand => exact .throw _
    | location => exact .after (.newCell _) fun c => (addName_atomic name c _).give c

theorem declareFunction_atomic (f : FunctionDef Stmt) : Atomic (declareFunction f) := by
  refine .after (x := Exec.find? f.name) (.read fun _ => trivial) fun c => ?_
  split
  · refine .after (x := Exec.value _) (.read fun _ => trivial) fun v => ?_
    split
    · split
      · exact .pure _
      · exact .throw _
    · exact .throw _
  · refine .after (.newCell _) fun c => .after (x := get) (.read fun _ => trivial) fun s => ?_
    split
    · exact addGlobal_atomic _ _ _
    · exact addLocal_atomic _ _

theorem addType_atomic (name : String) (t : ObjectType) (line : Option Nat) :
    Atomic (addType name t line) := fun _ =>
  .addType (fun _ _ _ => trivial) (fun _ _ _ _ => trivial) rfl fun _ => rfl

end Exec

end CellScript
