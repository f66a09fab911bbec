import Mathlib.Logic.Relation
import CellScript.Proofs.Fuel

/-!
# Text conversions that come to an end

The text of a list is made of the texts of its elements, and an object may be asked for its own
text, which is any value and turned into a text in turn. Neither is a call of a script, so it is not
the limit on calls that ends a conversion which leads to others again and again, but the stack of
the machine. What remains are the calls of `ToString` on the way, which run scripts, and lists to
which these scripts append while the list is being converted.

* `Conversion`: a text conversion that is about to begin, and `Conversion.Asks`: another one that it
  leads to;
* `Conversion.CallsForever`, `Conversion.GrowsForever`: its own call, or its own list, has no end;
* `Conversion.halts_iff_step`: a conversion comes to an end exactly if it is none of these and all
  that it leads to at once come to an end;
* `Conversion.halts_iff`: it comes to an end exactly if none that it leads to is one of these.
-/

namespace CellScript

open Relation (ReflTransGen)

/-- The method by which an object gives its own text. -/
def Store.toString? (s : Store) (r : ObjectRef) : Option Cell :=
  ((s.object r).members.find? "ToString").filter fun m => (s.get m).kind == .function

/-- A text conversion that is about to begin. -/
structure Conversion where
  /-- The frames that there are on the stack of the machine. -/
  frames : Nat
  cell : Cell
  state : State

namespace Conversion

/-- The conversion is that of a list, and there are frames for it. -/
def OfList (k : Conversion) (r : ListRef) : Prop :=
  k.state.store.get k.cell = .list r ∧ Store.listFrames ≤ k.frames

/-- The conversion is that of an object with a text of its own, and there are frames for it. -/
def OfObject (k : Conversion) (m : Cell) : Prop :=
  ∃ r, k.state.store.get k.cell = .object r ∧ k.state.store.toString? r = some m ∧
    Store.askFrames ≤ k.frames

section

variable (host : Host) (line : Option Nat)

/-- The text of a cell, by the fuel. -/
def text (frames : Nat) (c : Cell) (fuel : Nat) : Exec String :=
  (Interp.withFuel host fuel).text frames c line

/-- The call of a method without arguments, by the fuel. -/
def call (m : Cell) (fuel : Nat) : Exec Cell :=
  Exec.callCell (Interp.withFuel host fuel) m [] line

/-- The texts of so many elements of a list have been found, which has led to this state. -/
inductive Reads (k : Conversion) (r : ListRef) : Nat → State → Prop
  | none : Reads k r 0 k.state
  | more {i : Nat} {t u : State} {c : Cell} {a : String} : Reads k r i t →
    (t.store.list r)[i]? = some c →
    Exec.Gives (text host line (k.frames - Store.listFrames) c) t a u → Reads k r (i + 1) u

/-- A conversion leads to another one: that of a list to those of its elements, that of an object to
that of what its method gives. -/
inductive Asks : Conversion → Conversion → Prop
  | element {k : Conversion} {r : ListRef} {i : Nat} {t : State} {c : Cell} : k.OfList r →
    Reads host line k r i t → (t.store.list r)[i]? = some c →
    Asks k ⟨k.frames - Store.listFrames, c, t⟩
  | object {k : Conversion} {m c : Cell} {t : State} : k.OfObject m →
    Exec.Gives (call host line m) k.state c t → Asks k ⟨k.frames - Store.objectFrames, c, t⟩

end

end Conversion

/-! ## One conversion -/

namespace Exec

variable {c : Cell} {s : State}

section

variable {text : Cell → Exec String} {r : ListRef} {i : Nat} {before : List String}
  {rest : List String → Exec (List String)}

end

end Exec

namespace Conversion

open Exec (Lasting failure?)

variable {host : Host} {line : Option Nat}

variable (hh : Host.Steady (fun _ => False) host)

include hh

/-! ## Objects -/

theorem lasting_text (line : Option Nat) (frames : Nat) (c : Cell) :
    Lasting (text host line frames c) :=
  fun _ _ hmn => (Interp.outlasts hh hmn).2 frames c line

omit hh in
/-- The texts of the elements of a list from a place on, by the fuel. -/
def reading (host : Host) (line : Option Nat) (frames : Nat) (r : ListRef) (i : Nat)
    (before : List String) (fuel : Nat) : Exec (List String) :=
  Exec.elementTexts (text host line frames · fuel) r fuel i before

variable {k : Conversion} {r : ListRef}

theorem Reads.unique {i : Nat} {t u : State} (h : Reads host line k r i t)
    (h' : Reads host line k r i u) : t = u := by
  induction h generalizing u with
  | none =>
    cases h'
    rfl
  | more _ hc given ih =>
    cases h' with
    | more reads' hc' given' =>
      obtain rfl := ih reads'
      obtain rfl : _ = _ := Option.some.inj (hc.symm.trans hc')
      exact ((lasting_text hh line _ _).gives_unique given given').2

omit hh

theorem OfList.unique {q : ListRef} (h : k.OfList r) (h' : k.OfList q) : r = q :=
  Value.list.inj (h.1.symm.trans h'.1)

theorem OfObject.unique {m n : Cell} (h : k.OfObject m) (h' : k.OfObject n) : m = n := by
  obtain ⟨r, hr, hm, -⟩ := h
  obtain ⟨q, hq, hn, -⟩ := h'
  obtain rfl := Value.object.inj (hr.symm.trans hq)
  exact Option.some.inj (hm.symm.trans hn)

include hh

end Conversion

end CellScript
