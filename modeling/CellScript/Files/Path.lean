/-!
# Paths

A path is a text of names between slashes. These functions work on the text alone: nothing is looked
up. `normalized` removes empty names and dots, and lets two dots undo the name before them.
-/

namespace CellScript

namespace Path

/-- The stretches between slashes. -/
def segments : List Char → List (List Char)
  | [] => [[]]
  | '/' :: rest => [] :: segments rest
  | c :: rest =>
    match segments rest with
    | [] => [[c]]
    | s :: more => (c :: s) :: more

/-- The names between the slashes of a path, empty ones included. -/
def names (path : String) : List String := (segments path.toList).map String.ofList

/-- Whether a path starts from the root. -/
def isAbsolute (path : String) : Bool := path.toList.head? == some '/'

/-- A path taken from a directory; an absolute path stands for itself. -/
def join (directory path : String) : String :=
  if isAbsolute path then path
  else if directory.isEmpty || directory.toList.getLast? == some '/' then directory ++ path
  else directory ++ "/" ++ path

/-- What stands before the last slash, without slashes at its end unless there is nothing else. -/
def directory (path : String) : String :=
  let head := (path.toList.reverse.dropWhile (· != '/'))
  let bare := head.dropWhile (· == '/')
  String.ofList (if bare.isEmpty then head.reverse else bare.reverse)

/-- The slashes that an absolute path begins with: two stay two, more count as one. -/
def rootMark (path : String) : String :=
  match path.toList with
  | '/' :: '/' :: '/' :: _ => "/"
  | '/' :: '/' :: _ => "//"
  | '/' :: _ => "/"
  | _ => ""

/-- Resolve dots against the names kept so far, last first. Above the root is only the root. -/
def resolveDots (absolute : Bool) : List String → List String → List String
  | kept, [] => kept.reverse
  | kept, n :: rest =>
    if n == "" || n == "." then resolveDots absolute kept rest
    else if n == ".." then
      match kept with
      | [] => if absolute then resolveDots absolute [] rest else resolveDots absolute [".."] rest
      | k :: more =>
        if k == ".." then resolveDots absolute (".." :: kept) rest
        else resolveDots absolute more rest
    else resolveDots absolute (n :: kept) rest

/-- A path without empty names, dots and undone names. -/
def normalized (path : String) : String :=
  let mark := rootMark path
  let result := mark ++ String.intercalate "/" (resolveDots (!mark.isEmpty) [] (names path))
  if result.isEmpty then "." else result

/-- The normalized path from the root, taken from the working directory. -/
def absolute (workingDirectory path : String) : String :=
  normalized (join workingDirectory path)

end Path

end CellScript
