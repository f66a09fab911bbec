import CellScript.Numeric.Reading
import CellScript.State

/-!
# The arguments of the command

Every argument is first looked at by itself (`Word.ofArgument`): it is a value, the mark `--` behind
which everything is a value, a cluster of switches, a setting that takes a value, or it looks like
an option and is none. A long option may be cut short as long as one option begins that way, a value
may follow `=` or stand directly behind a short option, and short options may share one dash, also
behind `=`. The words are then read from left to right (`Draft.read`); the first value that no
setting takes is the source.
-/

namespace CellScript

namespace Console

/-- An option without a value. -/
inductive Switch
  | help
  | inline
  | tree
  | interactive
  | verbose
  deriving DecidableEq, Repr

/-- An option with a value. -/
inductive Setting
  | includeDir
  | maxDepth
  deriving DecidableEq, Repr

/-- An option. -/
inductive OptionKey
  | switch (s : Switch)
  | setting (s : Setting)
  deriving DecidableEq, Repr

/-- The spellings of the options. -/
def spellings : List (String × OptionKey) :=
  [("-h", .switch .help), ("--help", .switch .help), ("-s", .switch .inline),
    ("--string", .switch .inline), ("-I", .setting .includeDir),
    ("--include", .setting .includeDir), ("--max-depth", .setting .maxDepth),
    ("--ast", .switch .tree), ("--repl", .switch .interactive), ("--verbose", .switch .verbose)]

/-- The option with exactly this spelling. -/
def OptionKey.ofSpelling? (s : String) : Option OptionKey := spellings.lookup s

/-! ## Words -/

/-- What an argument is, seen by itself. -/
inductive Word
  | value (text : String)
  /-- Everything behind this mark is a value. -/
  | separator
  /-- Switches behind one dash, or a single long one. -/
  | switches (ss : List Switch)
  /-- Switches and a setting behind one dash, or a setting alone, and the value if attached. -/
  | setting (before : List Switch) (s : Setting) (attached : Option String)
  /-- An argument that looks like an option and is none. -/
  | unknown
  /-- A switch with something attached that is no switch or setting. -/
  | surplus
  deriving DecidableEq, Repr

namespace Word

/-- The word for an option and the value attached to it. -/
def ofKey (before : List Switch) (key : OptionKey) (attached : Option String) : Word :=
  match key, attached with
  | .setting s, v => setting before s v
  | .switch s, none => switches (before ++ [s])
  | .switch _, some _ => surplus

/-- The word for a short option and the characters behind it: the value of a setting, or more
options. -/
def ofCluster (before : List Switch) (key : OptionKey) : List Char → Word
  | [] => ofKey before key none
  | c :: rest =>
    match key with
    | .setting s => setting before s (some (String.ofList (c :: rest)))
    | .switch s =>
      match OptionKey.ofSpelling? (String.ofList ['-', c]) with
      | some next => ofCluster (before ++ [s]) next rest
      | none => surplus

/-- The word for the first short option behind a dash and the characters behind it, which may be
divided from it by `=`. -/
def ofShort (key : OptionKey) : List Char → Word
  | '=' :: attached =>
    match key, attached with
    | .switch _, c :: rest => ofCluster [] key (c :: rest)
    | _, _ => ofKey [] key (some (String.ofList attached))
  | rest => ofCluster [] key rest

/-- What stands before the first `=`, and what stands behind it if there is one. -/
def splitValue (cs : List Char) : List Char × Option (List Char) :=
  match cs.dropWhile (· != '=') with
  | [] => (cs, none)
  | _ :: behind => (cs.takeWhile (· != '='), some behind)

/-- Whether an argument is a negative number and not an option: digits, or a point and digits that
may have digits before it. A newline at the end does no harm. -/
def isNegativeNumber (cs : List Char) : Bool :=
  let digit (c : Char) := (decimalValue? c).isSome
  let body := match cs with
    | '-' :: body => if body.getLast? == some '\n' then body.dropLast else body
    | _ => []
  match body.dropWhile digit with
  | [] => !body.isEmpty
  | '.' :: fraction => !fraction.isEmpty && fraction.all digit
  | _ => false

/-- The word for a long option that may be cut short. `none` when it is the beginning of several
options. -/
def ofLong (plain : Word) (cs : List Char) : Option Word :=
  let (name, attached) := splitValue cs
  match OptionKey.ofSpelling? (String.ofList name) with
  | some key => some (ofKey [] key (attached.map String.ofList))
  | none =>
    match spellings.filter fun (s, _) => name.isPrefixOf s.toList with
    | [] => some plain
    | [(_, key)] => some (ofKey [] key (attached.map String.ofList))
    | _ => none

/-- The word for an argument that begins with a dash. `none` when it is the beginning of several
options. -/
def ofDashed (cs : List Char) : Option Word :=
  let plain : Word :=
    if isNegativeNumber cs || cs.contains ' ' then value (String.ofList cs) else unknown
  match cs with
  | '-' :: '-' :: _ => ofLong plain cs
  | '-' :: c :: rest =>
    match OptionKey.ofSpelling? (String.ofList ['-', c]) with
    | some key => some (ofShort key rest)
    | none => some plain
  | _ => some plain

/-- The word for an argument, `none` when it is the beginning of several options. -/
def ofArgument (arg : String) : Option Word :=
  match arg.toList with
  | '-' :: c :: rest => ofDashed ('-' :: c :: rest)
  | _ => some (value arg)

/-- The words for the arguments, `none` when one of them is the beginning of several options. -/
def ofArguments : List String → Option (List Word)
  | [] => some []
  | "--" :: rest => some (separator :: rest.map value)
  | arg :: rest => do return (← ofArgument arg) :: (← ofArguments rest)

end Word

/-! ## Options -/

/-- What the command is asked to do. -/
structure Options where
  /-- A file, or the text of a script. -/
  source : Option String
  /-- Whether the source is the text of a script. -/
  inline : Bool
  includeDirs : List String
  maxDepth : Int
  /-- Whether to show the tree instead of running the script. -/
  tree : Bool
  /-- Whether to read scripts from the keyboard. -/
  interactive : Bool
  verbose : Bool
  deriving DecidableEq, Repr

/-- What is asked for without any argument. -/
def Options.default : Options where
  source := none
  inline := false
  includeDirs := []
  maxDepth := State.defaultMaxCallDepth
  tree := false
  interactive := false
  verbose := false

/-- What the arguments ask for. -/
inductive Request
  | options (o : Options)
  | help
  /-- The arguments make no sense. -/
  | misuse
  deriving DecidableEq, Repr

/-- Options that are still being read, and whether an argument was left over. -/
structure Draft where
  options : Options
  leftOver : Bool

namespace Draft

/-- Turn a switch on. -/
def turnOn (d : Draft) : Switch → Draft
  | .help => d
  | .inline => { d with options.inline := true }
  | .tree => { d with options.tree := true }
  | .interactive => { d with options.interactive := true }
  | .verbose => { d with options.verbose := true }

/-- Give a setting its value, if it can have that value. -/
def set? (d : Draft) (s : Setting) (v : String) : Option Draft :=
  match s with
  | .includeDir => some { d with options.includeDirs := d.options.includeDirs ++ [v] }
  | .maxDepth => (readInteger v.toList).toOption.map fun n => { d with options.maxDepth := n }

/-- Go on behind switches; help comes before everything that follows. -/
def afterSwitches (d : Draft) (ss : List Switch) (next : Draft → Request) : Request :=
  if ss.contains .help then .help else next (ss.foldl turnOn d)

/-- Go on behind a setting and its value. -/
def afterSetting (d : Draft) (before : List Switch) (s : Setting) (v : String)
    (next : Draft → Request) : Request :=
  d.afterSwitches before fun d => (d.set? s v).elim .misuse next

/-- Take a value as the source, unless there is one. -/
def offer (d : Draft) (v : String) : Draft :=
  if d.options.source.isNone then { d with options.source := some v }
  else { d with leftOver := true }

/-- Read words to the end. The mark `--` may stand next to the source, or alone if there is no
source; elsewhere it is left over. -/
def read : List Word → Draft → Request
  | [], d => if d.leftOver then .misuse else .options d.options
  | .switches ss :: rest, d => d.afterSwitches ss (read rest)
  | .unknown :: rest, d => read rest { d with leftOver := true }
  | .setting before s (some v) :: rest, d => d.afterSetting before s v (read rest)
  | .setting before s none :: .value v :: rest, d => d.afterSetting before s v (read rest)
  | .setting _ _ none :: _, _ => .misuse
  | .surplus :: _, _ => .misuse
  | .value v :: .separator :: rest, d =>
    read rest { d.offer v with leftOver := d.leftOver || d.options.source.isSome || !rest.isEmpty }
  | .value v :: rest, d => read rest (d.offer v)
  | .separator :: rest, d =>
    read rest { d with leftOver := d.leftOver || d.options.source.isSome }

end Draft

/-- What the arguments ask for. -/
def readArguments (args : List String) : Request :=
  match Word.ofArguments args with
  | none => .misuse
  | some words => Draft.read words ⟨.default, false⟩

end Console

end CellScript
