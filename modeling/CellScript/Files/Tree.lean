import CellScript.Files.Path
import CellScript.Text.Utf8

/-!
# A tree of files

A snapshot of the files that a program can see: their bytes by absolute path, the directories that
hold them, and the working directory. Looking up a path walks it name by name, so a path through a
file or a missing directory leads nowhere even if dots would undo it.
-/

namespace CellScript

/-- What a path leads to. -/
inductive FileEntry
  | file (bytes : List UInt8)
  | directory
  deriving DecidableEq, Repr

/-- Why a path cannot be read. -/
inductive FileFault
  | notFound
  | notDirectory
  | isDirectory
  | nameTooLong
  | nulByte
  deriving DecidableEq, Repr

/-- The message about a path that cannot be read. -/
def FileFault.message (f : FileFault) (path : String) : String :=
  match f with
  | .notFound => s!"[Errno 2] No such file or directory: {quoted path}"
  | .notDirectory => s!"[Errno 20] Not a directory: {quoted path}"
  | .isDirectory => s!"[Errno 21] Is a directory: {quoted path}"
  | .nameTooLong => s!"[Errno 36] File name too long: {quoted path}"
  | .nulByte => "embedded null byte"

/-- Files and directories by their names from the root. -/
structure FileTree where
  entries : List (List String × FileEntry)
  workingDirectory : String

namespace FileTree

/-- The proper initial parts of a list of names. -/
def parents : List String → List (List String)
  | [] => []
  | n :: rest => [] :: (parents rest).map (n :: ·)

/-- The tree with an entry at a path, and with every directory on the way to it. -/
def insert (t : FileTree) (path : String) (e : FileEntry) : FileTree :=
  let names := Path.names (Path.join t.workingDirectory path)
  let way := (parents names).map fun ns => (Path.resolveDots true [] ns, FileEntry.directory)
  { t with entries := (Path.resolveDots true [] names, e) :: way ++ t.entries }

/-- The tree with nothing but a working directory. -/
def bare (workingDirectory : String) : FileTree :=
  insert ⟨[], workingDirectory⟩ workingDirectory .directory

/-- The tree with the given files under a working directory. -/
def ofFiles (workingDirectory : String) (files : List (String × List UInt8)) : FileTree :=
  files.foldl (fun t f => t.insert f.1 (.file f.2)) (bare workingDirectory)

/-- The entry with the given names; the root is a directory. -/
def entry? (t : FileTree) (names : List String) : Option FileEntry :=
  if names.isEmpty then some .directory
  else (t.entries.find? (·.1 == names)).map (·.2)

/-- The most bytes that a name may have. -/
def maxNameBytes : Nat := 255

/-- The most bytes that a path may have. -/
def maxPathBytes : Nat := 4095

/-- Follow names from a directory, whose own names are given last first. -/
def walk (t : FileTree) : List String → List String → Except FileFault FileEntry
  | here, [] =>
    match t.entry? here.reverse with
    | some e => .ok e
    | none => .error .notFound
  | here, n :: rest =>
    match t.entry? here.reverse with
    | none => .error .notFound
    | some (.file _) => .error .notDirectory
    | some .directory =>
      if n == "" || n == "." then walk t here rest
      else if n == ".." then walk t here.tail rest
      else if maxNameBytes < n.utf8ByteSize then .error .nameTooLong
      else walk t (n :: here) rest

/-- What a path leads to from the working directory. -/
def find (t : FileTree) (path : String) : Except FileFault FileEntry :=
  if path.toList.contains '\x00' then .error .nulByte
  else if path.isEmpty then .error .notFound
  else if maxPathBytes < path.utf8ByteSize then .error .nameTooLong
  else t.walk [] (Path.names (Path.join t.workingDirectory path))

/-- Whether a path leads to a file. -/
def isFile (t : FileTree) (path : String) : Bool :=
  match t.find path with
  | .ok (.file _) => true
  | _ => false

/-- The bytes of the file that a path leads to. -/
def read (t : FileTree) (path : String) : Except FileFault (List UInt8) :=
  match t.find path with
  | .ok (.file bytes) => .ok bytes
  | .ok .directory => .error .isDirectory
  | .error f => .error f

/-- A path as an absolute and normalized one. -/
def absolute (t : FileTree) (path : String) : String := Path.absolute t.workingDirectory path

end FileTree

end CellScript
