import CellScript.Eval.Statement
import CellScript.Parse.Script

/-!
# Sessions

A session is what a host embeds: it keeps the global names from one script to the next, so that a
script can define what a later one or the host itself calls. Hosts add functions, types and global
names of their own. Every script is parsed under a new number, and a parsed script can be run again.
-/

namespace CellScript

/-- Why a session could not do what it was asked to. -/
inductive SessionFailure
  | parse (f : ParseFailure)
  | run (f : Failure)
  deriving DecidableEq, Repr

/-- The message about a failure. -/
def SessionFailure.message : SessionFailure → String
  | parse f => f.message
  | run f => f.message

/-- A session. -/
structure Session where
  state : State
  sources : Sources
  /-- Whether scripts see the standard names. -/
  standardLibrary : Bool
  /-- The number of the next parse. -/
  unit : Nat

/-- What is logged about an included file. -/
def includeNotice (path : String) : String := s!"including {path}"

/-- A step of a session with a result of type `α`. -/
abbrev SessionM := EStateM SessionFailure Session

/-! ## Standard names -/

/-- The largest double. -/
def maxReal : Float := Binary64.assemble false (pow2 53 - 1) 971

/-- The largest number of 32 bits with a sign. -/
def maxInt : Int := 2147483647

/-- The smallest number of 32 bits with a sign. -/
def minInt : Int := -2147483648

/-- The standard constants in the order in which they are bound. -/
def standardConstants : List (String × Value) :=
  [("PI", .real (.real pi)), ("PI2", .real (.real (2.0 * pi))),
    ("MAX_REAL", .real (.real maxReal)), ("MIN_REAL", .real (.real (-maxReal))),
    ("MAX_INT", .integer maxInt), ("MIN_INT", .integer minInt)]

/-- All standard names. -/
def standardNames : List String := standardConstants.map (·.1) ++ Builtin.all.map Builtin.name

namespace Exec

/-- Bind a global name to a new cell with a value. -/
def defineGlobal (name : String) (v : Value) : Exec Unit := do addGlobal name (← newCell v) none

/-- Add a function under a global name. -/
def defineFunction (name : String) (f : Callable) : Exec Unit := do
  trace "velox.interpreter" s!"registering native function {name}"
  defineGlobal name (.function f none)

/-- Add a type of the host. -/
def defineType (t : ObjectType) : Exec Unit := do
  let what := if t.isInstant then "instant" else "class"
  trace "velox.interpreter" s!"registering native {what} {t.name}"
  addType t.name t none

/-- Bind the standard names. -/
@[irreducible] def installLibrary : Exec Unit := do
  for (name, v) in standardConstants do
    defineGlobal name v
  for f in Builtin.all do
    defineFunction f.name (.builtin f)

/-- Begin with one empty global scope, and the standard names if they are wanted. The storage stays,
and so does what has been printed and logged. -/
def freshContext (standardLibrary : Bool) : Exec Unit := do
  modify State.restart
  if standardLibrary then installLibrary

/-! ## Running scripts and calling functions -/

/-- The frames that one active call may take on the stack of the machine. -/
def framesPerCall : Int := 60

/-- Run a step with more frames, for the deepest run that the limit on calls allows, and take them
back afterwards. There has to be at least one, and as frames are counted in 32 bits with a sign, a
limit far out of reach fails. -/
def withFrames {α : Type} (x : Exec α) : Exec α := do
  let previous ← get
  let frames := previous.frames + framesPerCall * previous.maxCallDepth
  if frames < minInt || maxInt < frames then throw (.number .overflow)
  if frames < 1 then throw .noFrames
  modify fun s => { s with frames := frames.toNat }
  ensuring x (modify fun s => { s with frames := previous.frames })

/-- Begin a run: drop what is left of an earlier one, and add a slot for the result. -/
def beginScript : Exec Unit := do
  modify State.reset
  pushReturn (← newCell .undefined)
  trace "velox.interpreter" s!"executing script ({(← get).globals.length} global scope(s))"

/-- Log what a script has returned, if that is wanted. -/
def report (c : Cell) : Exec Unit := do
  if (← get).tracing then
    let s ← get
    match s.store.describeIn s.frames c with
    | .ok t => trace "velox.interpreter" s!"script finished with {t}"
    | .error f => throw f

/-- End a run: take the result out of its slot, and all flags back. -/
def endScript : Exec Cell := do
  let c ← popReturn
  modify fun s => { s with flags := .none }
  report c
  return c

/-- Run a script and give what it returns. -/
def runScript (interp : Interp) (script : Script) : Exec Cell := do
  beginScript
  mapFailure (overrun none) <| withFrames do
    prepareAll script.statements
    interp.run script.statements
  endScript

/-- Call the function that a cell holds from outside of any script. -/
def callFromHost (interp : Interp) (c : Cell) (args : List Cell) : Exec Cell := do
  match ← value c with
  | .function f owner =>
    modify State.reset
    mapFailure (overrun none) (withFrames (interp.invoke f owner args none))
  | _ => fail .notAFunction none

end Exec

namespace Session

/-- A bound on the nesting and the turns of a run, far beyond what a machine can do. -/
def fuel : Nat := pow2 60

/-- The interpreter of a session with the given host. -/
def interp (host : Host) : Interp := Interp.withFuel host fuel

/-- Do a step of a run. -/
def lift {α : Type} (x : Exec α) : SessionM α := fun s =>
  match s with
  | ⟨state, sources, standardLibrary, unit⟩ =>
    match x state with
    | .ok a state => .ok a ⟨state, sources, standardLibrary, unit⟩
    | .error f state => .error (.run f) ⟨state, sources, standardLibrary, unit⟩

/-- A new session. -/
def create (maxCallDepth : Int) (standardLibrary tracing : Bool) (sources : Sources) : Session :=
  let state := { State.initial maxCallDepth with tracing }
  let state := match Exec.freshContext standardLibrary state with
    | .ok _ s => s
    | .error _ s => s
  ⟨state, sources, standardLibrary, 0⟩

/-- Forget all global names and begin again. -/
def reset : SessionM Unit := do lift (Exec.freshContext (← get).standardLibrary)

/-- Take the outcome of a parse. -/
def accept (outcome : ParseOutcome) : SessionM Script := do
  modify fun s => { s with unit := s.unit + 1 }
  for path in outcome.included do
    lift (Exec.trace "velox.parser" (includeNotice path))
  match outcome.result with
  | .ok script => return script
  | .error f => throw (.parse f)

/-- Parse a text, which may have a file name. -/
def parse (source : String) (path : Option String) : SessionM Script := do
  let s ← get
  accept (parseText s.sources s.unit path source)

/-- Run a parsed script. -/
def execute (host : Host) (script : Script) : SessionM Cell :=
  lift (Exec.runScript (interp host) script)

/-- Parse and run a text. -/
def run (host : Host) (source : String) (path : Option String) : SessionM Cell := do
  execute host (← parse source path)

/-- Parse and run a file. -/
def runFile (host : Host) (path : String) : SessionM Cell := do
  let s ← get
  execute host (← accept (parseFile s.sources s.unit path))

/-- Call a global function by name. -/
def callNamed (host : Host) (name : String) (args : List Cell) : SessionM Cell := lift do
  match (← get).findGlobal? name with
  | none => Exec.fail (.unknownIdentifier name) none
  | some c => Exec.callFromHost (interp host) c args

/-- Call the function that a cell holds. -/
def callCell (host : Host) (c : Cell) (args : List Cell) : SessionM Cell :=
  lift (Exec.callFromHost (interp host) c args)

/-- The text of a cell. -/
def text (host : Host) (c : Cell) : SessionM String := lift (Exec.fullText (interp host) c none)

end Session

end CellScript
