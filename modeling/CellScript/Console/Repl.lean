import CellScript.Console.Output

/-!
# The dialogue

In a dialogue the user types lines, and every input of one or more lines is run in one session. An
input goes on as long as its lines open more braces than they close. It is a script; or, when it is
no script and does not end like a statement, an expression whose value is shown. The failure of a
script is reported, and the dialogue goes on. What is not the script's failure ends the dialogue.

`Repl.enter` is one line typed by the user, `Repl.converse` a whole dialogue.
-/

namespace CellScript

/-! ## Inputs -/

/-- How many more braces a line opens than it closes, wherever in the line they stand. -/
def braceBalance (line : String) : Int :=
  let cs := line.toList
  (cs.count '\x7b' : Int) - (cs.count '\x7d' : Int)

/-- The lines of an input that is being typed. -/
structure Pending where
  /-- The lines so far, last first. -/
  lines : List String
  /-- How many more braces these lines open than they close. -/
  openBraces : Int
  deriving DecidableEq, Repr

namespace Pending

/-- No line yet. -/
def empty : Pending := ⟨[], 0⟩

/-- The input with one more line. -/
def add (p : Pending) (line : String) : Pending :=
  ⟨line :: p.lines, p.openBraces + braceBalance line⟩

/-- Whether the lines close all braces that they open, so that the input ends with them. -/
def isComplete (p : Pending) : Bool := p.openBraces ≤ 0

/-- The text of the input. -/
def text (p : Pending) : String :=
  String.ofList (trim (String.intercalate "\n" p.lines.reverse).toList)

end Pending

/-- A dialogue. -/
structure Repl where
  session : Session
  /-- Whether reports of failures are long. -/
  verbose : Bool
  pending : Pending

namespace Repl

/-! ## Evaluation -/

/-- Whether a text ends like a statement. -/
def endsStatement (source : String) : Bool :=
  match (trimEnd source.toList).getLast? with
  | some c => c == ';' || c == '\x7d'
  | none => false

/-- The statement that gives the value of an expression. -/
def returning (source : String) : String := s!"return {source};"

/-- Run an input: as a script, or else as an expression. If it is neither, the failure is that of
the script. -/
def evaluate (host : Host) (source : String) : SessionM Cell := fun s =>
  match Session.run host source (some "<repl>") s with
  | .error (.parse (.malformed e)) s =>
    if endsStatement source then .error (.parse (.malformed e)) s
    else
      match Session.run host (returning source) (some "<repl>") s with
      | .error (.parse (.malformed _)) s => .error (.parse (.malformed e)) s
      | result => result
  | result => result

/-- The value of a cell as the dialogue shows it: nothing if it is undefined. -/
def shown (host : Host) (c : Cell) : SessionM (Option String) := do
  if (← Session.lift (Exec.kindOf c)) == .undefined then return none
  else return some (← Session.text host c)

/-! ## Reports -/

/-- The failures that are reported: their kind and message. -/
def report? : SessionFailure → Option (String × String)
  | .parse (.malformed e) => some ("velox.velox_errors.VeloxParserError", e.message)
  | .run (.script cause line) =>
    some ("velox.velox_errors.VeloxInterpreterError", scriptMessage cause line)
  | _ => none

/-- The report of a failure. -/
def reportText (verbose : Bool) (kind message : String) : String :=
  if verbose then s!"[error] >>>\nTraceback (most recent call last):\n{kind}: {message}\n"
  else s!"[error] >>>\n{message}"

/-! ## Steps -/

/-- A new dialogue. -/
def start (verbose tracing : Bool) (sources : Sources) : Repl :=
  ⟨.create State.defaultMaxCallDepth true tracing sources, verbose, .empty⟩

/-- What the dialogue begins with. -/
def greeting : String := "Velox REPL. Type 'exit' or 'quit' to leave."

/-- What the dialogue ends with. -/
def farewell : String := "Exiting Velox REPL."

/-- What the user sees before typing a line. -/
def prompt (r : Repl) : String := if r.pending.lines.isEmpty then "velox> " else "...    "

/-- Hand over what the session has printed and logged. -/
def flush (r : Repl) (o : Output) : Repl × Output :=
  let s := r.session.state
  ({ r with session := { r.session with state := { s with printed := [], logged := [] } } },
    o.ofRun s.tracing s)

/-- Run an input and show its value or report its failure. -/
def answer (host : Host) (r : Repl) (source : String) (o : Output) :
    Output × Except Ending Repl :=
  match evaluate host source r.session with
  | .error f s =>
    let (r, o) := { r with session := s }.flush o
    match report? f with
    | some (kind, message) => (o.line (reportText r.verbose kind message), .ok r)
    | none => (o, .error (.failure f))
  | .ok c s =>
    match shown host c s with
    | .error f s => (({ r with session := s }.flush o).2, .error (.failure f))
    | .ok text s =>
      let (r, o) := { r with session := s }.flush o
      (text.elim o o.line, .ok r)

/-- Do what a complete input asks for. -/
def perform (host : Host) (r : Repl) (source : String) (o : Output) : Output × Except Ending Repl :=
  if source.isEmpty || ['/', '/'].isPrefixOf source.toList then (o, .ok r)
  else if lowerCase source == "verbose-mode" then
    let mode := if r.verbose then "OFF" else "ON"
    (o.line s!"[mode] >>> Verbose mode {mode}", .ok { r with verbose := !r.verbose })
  else if lowerCase source == "reset" then
    match Session.reset r.session with
    | .ok _ s =>
      let (r, o) := { r with session := s }.flush o
      (o.line "[ok] >>> Globals cleared.", .ok r)
    | .error f s => (({ r with session := s }.flush o).2, .error (.failure f))
  else r.answer host source o

/-- Take a line that the user has typed. -/
def enter (host : Host) (r : Repl) (line : String) (o : Output) : Output × Except Ending Repl :=
  let word := String.ofList (trim line.toList)
  if (word == "exit" || word == "quit") && r.pending.lines.isEmpty then
    (o.line farewell, .error (.exit 0))
  else
    let pending := r.pending.add line
    if pending.isComplete then { r with pending := .empty }.perform host pending.text o
    else (o, .ok { r with pending })

/-- End the dialogue without a word from the user. -/
def leave (o : Output) : Output := (o.line "").line farewell

/-- A whole dialogue, prompts included. An entry is a line or, as `none`, an interrupt; the dialogue
ends with the first interrupt or after the last entry. -/
def converse (host : Host) (r : Repl) (o : Output) : List (Option String) → Output × Ending
  | some line :: rest =>
    match r.enter host line (o.write r.prompt) with
    | (o, .ok r) => converse host r o rest
    | (o, .error ending) => (o, ending)
  | _ => (leave (o.write r.prompt), .exit 0)

/-- A whole dialogue from its greeting on. -/
def run (host : Host) (verbose tracing : Bool) (sources : Sources)
    (entries : List (Option String)) : Output × Ending :=
  let (r, o) := (start verbose tracing sources).flush (Output.empty.line greeting)
  r.converse host o entries

end Repl

end CellScript
