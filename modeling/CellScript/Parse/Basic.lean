import CellScript.Files.Sources
import CellScript.Parse.Failure
import CellScript.Syntax.Tree
import CellScript.Token.Reader

/-!
# Parsers

A parser reads tokens from a `Reader` and may fail. It knows the file it is in, the files that
include it, and whether it stands in a loop; it numbers the definitions that it meets and notes the
files that it includes.
-/

namespace CellScript

/-- Where a parser stands. -/
structure ParseEnv where
  sources : Sources
  /-- The file being read, if it has a name. -/
  path : Option String
  /-- The files on the way to this one, this one included. -/
  including : List String
  /-- The number of the parse, which its definitions carry. -/
  unit : Nat
  /-- Whether `break` and `continue` have a loop to act on. -/
  inLoop : Bool

/-- What a parser changes. -/
structure ParseState where
  reader : Reader
  /-- The number of the next definition. -/
  ordinal : Nat
  /-- The files included so far, last first. -/
  included : List String

/-- A parser with a result of type `α`. -/
abbrev Parser := ReaderT ParseEnv (EStateM ParseFailure ParseState)

namespace Parser

/-- Fail for a cause at a line of the file being read. -/
def failAt {α : Type} (cause : ParseCause) (line : Nat) : Parser α := fun env s =>
  .error (.malformed ⟨cause, line, env.path⟩) s

/-- Run a step of the reader; its faults carry the file being read. -/
def ofReader {α : Type} (step : EStateM LexError Reader α) : Parser α := fun env s =>
  match step s.reader with
  | .ok a r => .ok a { s with reader := r }
  | .error e r => .error (.malformed ⟨.lexical e.fault, e.line, env.path⟩) { s with reader := r }

/-- The current token. -/
def token : Parser Token := fun _ s => .ok s.reader.current s

/-- The kind of the current token. -/
def current : Parser TokenKind := fun _ s => .ok s.reader.current.kind s

/-- The line of the current token. -/
def line : Parser Nat := fun _ s => .ok s.reader.current.line s

/-- Move to the next token. -/
def advance : Parser Unit := ofReader Reader.advance

/-- Fail for a cause at the current token. -/
def fail {α : Type} (cause : ParseCause) : Parser α := do failAt cause (← line)

/-- Whether the current token is the given mark. -/
def atMark (m : Mark) : Parser Bool := return (← current) == .mark m

/-- Move over a mark that has to stand here. -/
def expect (m : Mark) : Parser Unit := do
  if ← atMark m then advance else fail (.expected m.spelling)

/-- Move over a name that has to stand here. -/
def expectName (otherwise : ParseCause) : Parser String := do
  let t ← token
  if t.kind == .ident then
    advance
    return t.value
  else fail otherwise

/-- A new identity for a definition. -/
def freshId : Parser DefId := fun env s =>
  .ok ⟨env.unit, s.ordinal⟩ { s with ordinal := s.ordinal + 1 }

/-- Run a parser inside or outside of a loop. -/
def withLoop {α : Type} (inLoop : Bool) (p : Parser α) : Parser α := fun env s =>
  p { env with inLoop } s

/-- A bound on the tokens that are still to come, the current one included. -/
def tokensLeft : Parser Nat := fun _ s =>
  .ok (s.reader.stream.steps.length + 3) s

end Parser

end CellScript
