import CellScript.Parse.Statement

/-!
# From sources to scripts

`parseText` and `parseFile` read a script from a text or from a file, together with the files that
it includes. Files that include each other are read at most once on every way from the root, so the
number of files bounds the depth of includes.
-/

namespace CellScript

/-- What came of parsing: a script or the reason why not, and the files included on the way. -/
structure ParseOutcome where
  result : Except ParseFailure Script
  included : List String

namespace Parser

/-- The text of a file. -/
def readText (sources : Sources) (path : String) : Except ParseFailure (List Char) :=
  match sources.files.read path with
  | .error f => .error (.unreadable path f)
  | .ok bytes =>
    match Utf8.decode bytes with
    | .error f => .error (.notUtf8 f)
    | .ok cs => .ok (normalizeLineEnds cs)

/-- The reader at the first token of a text. -/
def openText (path : Option String) (text : List Char) : Except ParseFailure Reader :=
  match Reader.ofStream (.ofChars text) with
  | .ok r => .ok r
  | .error e => .error (.malformed ⟨.lexical e.fault, e.line, path⟩)

/-- Run a parser on a file inside another one, and go on with the other one. -/
def insideFile (path : String) (p : Parser (List Stmt)) : Parser (List Stmt) := fun env s =>
  match readText env.sources path >>= openText (some path) with
  | .error f => .error f s
  | .ok r =>
    let inner :=
      { env with path := some path, including := env.including ++ [path], inLoop := false }
    match p inner { s with reader := r } with
    | .ok ss s' => .ok ss { s' with reader := s.reader }
    | .error f s' => .error f s'

/-- The statements of an included file, with a bound on the depth of includes. -/
def load : Nat → String → Parser (List Stmt)
  | 0, _ => throw .outOfFuel
  | depth + 1, path => insideFile path (program (load depth))

/-- A bound on the depth of includes: a path may begin with one slash or two. -/
def includeDepth (sources : Sources) : Nat := 2 * sources.files.entries.length + 2

/-- Run the parser of a whole program on a text. -/
def run (sources : Sources) (unit : Nat) (path : Option String) (including : List String)
    (text : Except ParseFailure (List Char)) : ParseOutcome :=
  match text >>= openText path with
  | .error f => ⟨.error f, []⟩
  | .ok r =>
    let env : ParseEnv := ⟨sources, path, including, unit, false⟩
    match program (load (includeDepth sources)) env ⟨r, 0, []⟩ with
    | .ok ss s => ⟨.ok ⟨ss⟩, s.included.reverse⟩
    | .error f s => ⟨.error f, s.included.reverse⟩

end Parser

/-- Parse a text, which may have a file name. -/
def parseText (sources : Sources) (unit : Nat) (path : Option String) (text : String) :
    ParseOutcome :=
  Parser.run sources unit path [] (.ok text.toList)

/-- Parse a file. -/
def parseFile (sources : Sources) (unit : Nat) (path : String) : ParseOutcome :=
  let full := sources.files.absolute path
  Parser.run sources unit (some full) [full] (Parser.readText sources full)

end CellScript
