import CellScript.Console.Command

/-!
# The command line

The outer layer: it takes a snapshot of the files that a script may need, hands the arguments to
`Console.run` or the typed lines to `Repl.enter`, and writes the output. Scripts run here have no
functions of a host.
-/

namespace CellScript

namespace Console

/-- A host without functions. -/
def noHost : Host := fun _ => return none

/-- The names behind the keyword for an include. -/
def includedNames : List Token → List String
  | ⟨.keyword .include, _, _⟩ :: ⟨.string, name, _⟩ :: rest => name :: includedNames rest
  | _ :: rest => includedNames rest
  | [] => []

/-- The names that a text may include. -/
def namesIn (text : List Char) : List String := includedNames (TokenStream.ofChars text).tokens.1

/-- What a path leads to on the disk. -/
def probe (path : String) : IO (Option FileEntry) := do
  if path.isEmpty || path.toList.contains '\x00' then return none
  if ← ((← IO.currentDir) / path).isDir then return some .directory
  try
    return some (.file (← IO.FS.readBinFile path).toList)
  catch _ => return none

mutual

/-- Take a path, and what the file there may include, into the snapshot. -/
partial def gather (sources : Sources) (path : String) : IO Sources := do
  if (sources.files.find path).toOption.isSome then return sources
  match ← probe path with
  | none => return sources
  | some e =>
    let sources := { sources with files := sources.files.insert path e }
    match e with
    | .directory => return sources
    | .file _ =>
      let full := sources.files.absolute path
      gatherNames sources (some full) (namesIn ((Parser.readText sources full).toOption.getD []))

/-- Take what an include of the names may stand for into the snapshot. -/
partial def gatherNames (sources : Sources) (includer : Option String) (names : List String) :
    IO Sources :=
  names.foldlM
    (fun sources name => (sources.candidates includer name).foldlM gather sources) sources

end

/-- Write the output of a step. -/
def emit (o : Output) : IO Unit := do
  (← IO.getStdout).putStr o.out
  (← IO.getStdout).flush
  (← IO.getStderr).putStr o.err

/-- The status of an ending; a failure that nothing reported is named here. -/
def finish : Ending → IO UInt32
  | .exit status => return status.toUInt32
  | .failure f => do
    (← IO.getStderr).putStrLn f.message
    return 1

/-- Read lines and answer them until the dialogue ends. -/
partial def dialogue (r : Repl) : IO UInt32 := do
  emit (Output.empty.write r.prompt)
  let line ← (← IO.getStdin).getLine
  if line.isEmpty then
    emit (Repl.leave .empty)
    return 0
  let line := if line.toList.getLast? == some '\n' then String.ofList line.toList.dropLast else line
  let text := (r.pending.add line).text
  let sources ← gatherNames r.session.sources (some "<repl>") (namesIn text.toList)
  match { r with session := { r.session with sources } }.enter noHost line .empty with
  | (o, .ok r) =>
    emit o
    dialogue r
  | (o, .error ending) =>
    emit o
    finish ending

/-- Run the command with the files and the environment of the process. -/
def execute (args : List String) : IO UInt32 := do
  let files := FileTree.bare (← IO.currentDir).toString
  let searchPath := Sources.splitSearchPath ((← IO.getEnv "VELOX_PATH").getD "")
  match readArguments args with
  | .options o =>
    let sources : Sources := ⟨files, o.includeDirs, searchPath⟩
    match o.source, o.interactive with
    | some source, false =>
      let sources ←
        if o.inline then gatherNames sources none (namesIn source.toList)
        else gather sources (files.absolute source)
      let (out, ending) := runSource noHost sources o source
      emit out
      finish ending
    | _, _ =>
      let (r, out) :=
        (Repl.start o.verbose o.verbose sources).flush (Output.empty.line Repl.greeting)
      emit out
      dialogue r
  | _ =>
    let (out, ending) := run noHost files searchPath args []
    emit out
    finish ending

end Console

end CellScript

/-- The command. -/
def main (args : List String) : IO UInt32 := CellScript.Console.execute args
