import CellScript.Files.Tree

/-!
# Where included files are looked for

An included file is looked for beside the including one, then in directories named by the host, then
in directories named by the environment. The first path that leads to a file is taken.
-/

namespace CellScript

/-- The files at hand and the directories that are searched for included ones. -/
structure Sources where
  files : FileTree
  /-- Directories named by the host. -/
  includeDirs : List String
  /-- Directories named by the environment. -/
  searchPath : List String

namespace Sources

/-- The non-empty stretches between colons. -/
def splitSearchPath (s : String) : List String := (s.splitOn ":").filter (!·.isEmpty)

/-- The paths that an include of `name` may stand for, in the order of the search: beside the
including file, or in the working directory if there is none, then in the named directories. -/
def candidates (l : Sources) (includer : Option String) (name : String) : List String :=
  if Path.isAbsolute name then [name]
  else
    let base := match includer with
      | some p => if p.isEmpty then l.files.workingDirectory else Path.directory p
      | none => l.files.workingDirectory
    (base :: l.includeDirs ++ l.searchPath).map (Path.join · name)

/-- The absolute path of the first file that an include of `name` may stand for. -/
def resolve? (l : Sources) (includer : Option String) (name : String) : Option String :=
  ((l.candidates includer name).find? l.files.isFile).map l.files.absolute

end Sources

end CellScript
