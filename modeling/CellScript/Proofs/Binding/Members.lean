import CellScript.Proofs.Along
import CellScript.Proofs.Detached.Steps

/-!
# Members are never lost

Whatever is run in whatever state, completed or failed, an object keeps the members that it has:
members are bound when an object is made, when a missing one is evaluated as a location and when an
object is realized, and no step takes one away.

* `ProgramOrder.growth`: members only become more;
* `retains_withFuel`: the interpreter takes no members away.
-/

namespace CellScript

/-- Members only become more. -/
def ProgramOrder.growth : ProgramOrder where
  Le s t := s.store.Grows t.store
  From _ := True
  Made _ := True
  refl s := .refl s.store
  trans := .trans
  keeps _ _ := trivial
  shared h := .of_objects h.objects
  anonymous _ _ := .of_objects rfl
  addType _ _ _ := .of_objects rfl
  addGlobal _ _ _ := .of_objects rfl
  allocObject s := .allocObject s.store
  made _ := trivial
  setMember _ _ := .setMember _ _ _ _
  promotes _ _ _ _ _ := .setMember _ _ _ _

/-- The functions of a host take no members away. -/
def Host.Retains (host : Host) : Prop :=
  ∀ (name : String) (s : State), s.store.Grows (finalState (host name s)).store

/-- The interpreter takes no members away, whatever it runs. -/
theorem retains_withFuel {host : Host} (hh : host.Retains) (n : Nat) :
    ProgramOrder.growth.logic.AgreeOn .any (Interp.withFuel host n) (Interp.withFuel host n) :=
  ProgramOrder.followed (R := .growth) (fun name s _ => hh name s) n

end CellScript
