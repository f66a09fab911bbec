import CellScript.Session

/-!
# What a command writes and how it ends
-/

namespace CellScript

/-- What has been written to the two output streams. -/
structure Output where
  out : String
  err : String
  deriving DecidableEq, Repr

namespace Output

/-- Nothing. -/
def empty : Output := ⟨"", ""⟩

/-- Write a line. -/
def line (o : Output) (s : String) : Output := { o with out := o.out ++ s ++ "\n" }

/-- Write without ending the line. -/
def write (o : Output) (s : String) : Output := { o with out := o.out ++ s }

/-- Write a line to the other stream. -/
def errorLine (o : Output) (s : String) : Output := { o with err := o.err ++ s ++ "\n" }

/-- The line for a message that was logged. -/
def logLine (r : LogRecord) : String := s!"{r.level.name} {r.logger}: {r.message}"

/-- Write the files that a parse has included, if that is wanted. -/
def included (o : Output) (logging : Bool) (paths : List String) : Output :=
  if logging then
    paths.foldl (fun o p => o.errorLine (logLine ⟨.debug, "velox.parser", includeNotice p⟩)) o
  else o

/-- Write what a run has printed, and what it has logged if that is wanted. -/
def ofRun (o : Output) (logging : Bool) (s : State) : Output :=
  let o := s.printed.reverse.foldl line o
  if logging then s.logged.reverse.foldl (fun o r => o.errorLine (logLine r)) o else o

end Output

/-- How a dialogue or a command ends. -/
inductive Ending
  | exit (status : Nat)
  /-- A failure that nothing reports. -/
  | failure (f : SessionFailure)
  deriving DecidableEq, Repr

end CellScript
