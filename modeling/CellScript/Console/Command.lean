import CellScript.Console.Arguments
import CellScript.Console.Repl
import CellScript.Syntax.Json

/-!
# The command

The command runs a script from a file or from its arguments, shows the tree of a script, or opens a
dialogue. What is wrong with a script, with a file or with a number is reported and makes the
command fail with status 1; misused arguments make it fail with status 2.
-/

namespace CellScript

namespace Console

/-- The ends of the names of script files, in lower case. -/
def extensions : List String := [".vlx", ".velox"]

/-- Whether a path names a script file. -/
def hasExtension (path : String) : Bool :=
  extensions.any fun e => e.toList.isSuffixOf (lowerCase path).toList

/-- Whether the command reports a failure. -/
def isReported : SessionFailure → Bool
  | .parse .outOfFuel => false
  | .parse _ => true
  | .run (.script _ _) => true
  | .run (.number .notANumber) => true
  | .run (.number .domain) => true
  | .run (.number .tooManyDigits) => true
  | .run .noFrames => true
  | .run _ => false

/-- End with the report of a failure. -/
def complain (o : Output) (message : String) : Output × Ending :=
  (o.errorLine s!"[error] >>> {message}", .exit 1)

/-- End with a failure, which is reported if it can be. -/
def giveUp (o : Output) (f : SessionFailure) : Output × Ending :=
  if isReported f then complain o f.message else (o, .failure f)

/-- Parse the source that the options name. -/
def parseSource (sources : Sources) (o : Options) (source : String) : ParseOutcome :=
  if o.inline then parseText sources 0 none source else parseFile sources 0 source

/-- Run a script, or show its tree. -/
def runSource (host : Host) (sources : Sources) (o : Options) (source : String) : Output × Ending :=
  if !o.inline && !hasExtension source then
    complain .empty "Only .vlx and .velox files are supported."
  else
    let outcome := parseSource sources o source
    let out := Output.empty.included o.verbose outcome.included
    match outcome.result with
    | .error f => giveUp out (.parse f)
    | .ok script =>
      if o.tree then (out.line script.dump.json, .exit 0)
      else
        match Session.execute host script (.create o.maxDepth true o.verbose sources) with
        | .ok _ s => (out.ofRun o.verbose s.state, .exit 0)
        | .error f s => giveUp (out.ofRun o.verbose s.state) f

/-- What the command says about its arguments. -/
def usage : String :=
  "usage: velox [-h] [-s] [-I DIR] [--max-depth MAX_DEPTH] [--ast] [--repl] [--verbose] [source]"

/-- What the command says when it is asked for help. -/
def help : String :=
  usage ++ "\n\n" ++
  "  source                 a script file, or with -s the text of a script\n" ++
  "  -h, --help             show this text\n" ++
  "  -s, --string           take the source as the text of a script\n" ++
  "  -I, --include DIR      add a directory to the search for included files\n" ++
  "  --max-depth MAX_DEPTH  the most calls that may be active at once\n" ++
  "  --ast                  print the tree of the script as JSON\n" ++
  "  --repl                 open a dialogue\n" ++
  "  --verbose              log what is done"

/-- The command with the given arguments, and the entries that the user would make in a dialogue. -/
def run (host : Host) (files : FileTree) (searchPath : List String) (args : List String)
    (entries : List (Option String)) : Output × Ending :=
  match readArguments args with
  | .help => (Output.empty.line help, .exit 0)
  | .misuse => (Output.empty.errorLine usage, .exit 2)
  | .options o =>
    let sources : Sources := ⟨files, o.includeDirs, searchPath⟩
    match o.source, o.interactive with
    | some source, false => runSource host sources o source
    | _, _ => Repl.run host o.verbose o.verbose sources entries

end Console

end CellScript
