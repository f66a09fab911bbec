import CellScript.Proofs.Parse.Formed
import CellScript.Proofs.Print.ParsedStatements
import CellScript.Proofs.Print.Text

/-!
# Reading, printing and reading again

A text without reals and includes that is accepted gives a script that can be printed, and the
printed text is accepted again: it gives the same script, up to lines and the identities of
definitions. Where the second text is read does not matter, since it includes nothing.

* `row_of_parseText`: the statements of an accepted text can be printed;
* `parseText_print_parseText`: the text printed from them is read as the same script.
-/

namespace CellScript

/-- The statements of an accepted text without reals and includes can be printed. -/
theorem row_of_parseText {sources : Sources} {unit : Nat} {path : Option String} {text : String}
    {script : Script} (h : (parseText sources unit path text).result = .ok script)
    (hreal : .real ∉ (TokenStream.ofString text).kinds)
    (hinclude : .keyword .include ∉ (TokenStream.ofString text).kinds) :
    Stmt.Row script.statements := by
  have hprintable {r : Reader} (hr : Reader.ofStream (.ofChars text.toList) = .ok r) :
      r.Printable :=
    .ofStream (fun _ ht => TokenStream.printable_of_mem hreal hinclude ht) hr
  unfold parseText Parser.run at h
  split at h
  · cases h
  · next r hopen =>
    change Parser.openText path text.toList = .ok r at hopen
    unfold Parser.openText at hopen
    split at hopen
    · next r' hr' =>
      cases hopen
      dsimp only at h
      split at h
      · next hparse =>
        cases h
        exact ((Parser.program_yields _ _ _ (hprintable hr')).ok hparse).2
      · cases h
    · cases hopen

/-- A text without reals and includes that is accepted is printed as a text that is accepted, too,
and that gives the same script up to lines. -/
theorem parseText_print_parseText {sources : Sources} {unit : Nat} {path : Option String}
    {text : String} {script : Script} (h : (parseText sources unit path text).result = .ok script)
    (hreal : .real ∉ (TokenStream.ofString text).kinds)
    (hinclude : .keyword .include ∉ (TokenStream.ofString text).kinds) (sources' : Sources)
    (unit' : Nat) (path' : Option String) :
    ∃ again, (parseText sources' unit' path' script.print).result = .ok again ∧
      again.unplaced = script.unplaced :=
  Script.parseText_print (row_of_parseText h hreal hinclude) (closedAll_of_parseText h) sources'
    unit' path'

/-- A text with a bar at the front of a statement, an `else` behind two `if`s, parentheses that are
not needed, a sign that is dropped, and no semicolon behind the condition of a `do`. -/
def crowdedText : String :=
  "(|1|).f();if(a)if(b);else x=(1+(2*3))*+4;do y++;while(a)T\x7b\x7d"

/-- What `crowdedText` is printed as. -/
def crowdedPrinted : String :=
  "( | 1 | . f ( ) ) ; if ( a ) if ( b ) ; else x = ( 1 + 2 * 3 ) * 4 ; " ++
    "do y ++ ; while ( a ) ; T \x7b \x7d"

theorem parseText_print_parseText_crowded :
    ∃ script again, (parseText ⟨.ofFiles "/" [], [], []⟩ 0 none crowdedText).result = .ok script ∧
      script.print = crowdedPrinted ∧
      (parseText ⟨.ofFiles "/" [], [], []⟩ 0 none script.print).result = .ok again ∧
      again.unplaced = script.unplaced := by
  have hparse : (match (parseText ⟨.ofFiles "/" [], [], []⟩ 0 none crowdedText).result with
      | .ok script => decide (script.print = crowdedPrinted)
      | .error _ => false) = true := by decide +kernel
  have hkinds : .real ∉ (TokenStream.ofString crowdedText).kinds ∧
      .keyword .include ∉ (TokenStream.ofString crowdedText).kinds := by decide +kernel
  split at hparse
  · next script hscript =>
    obtain ⟨again, hagain, hsame⟩ := parseText_print_parseText hscript hkinds.1 hkinds.2
      ⟨.ofFiles "/" [], [], []⟩ 0 none
    exact ⟨script, again, hscript, of_decide_eq_true hparse, hagain, hsame⟩
  · cases hparse

end CellScript
