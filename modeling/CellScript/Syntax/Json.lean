import CellScript.Syntax.Dump

/-!
# Trees as JSON

`Dump.json` writes labelled data as JSON over several lines: every field and entry stands on a line
of its own, two blanks further in than what it belongs to. Only printable ASCII characters stand for
themselves.
-/

namespace CellScript

namespace Json

/-- A sixteen-bit unit by its number. -/
def unit (n : Nat) : List Char := '\\' :: 'u' :: hexDigits 4 n

/-- A character by its number; one beyond sixteen bits takes a pair of units. -/
def numbered (c : Char) : List Char :=
  let n := c.toNat
  if n < 0x10000 then unit n
  else unit (0xD800 + (n - 0x10000) / 0x400) ++ unit (0xDC00 + (n - 0x10000) % 0x400)

/-- A character as it stands between quotes. -/
def escapedChar (c : Char) : List Char :=
  match c with
  | '"' => ['\\', '"']
  | '\\' => ['\\', '\\']
  | '\n' => ['\\', 'n']
  | '\r' => ['\\', 'r']
  | '\t' => ['\\', 't']
  | '\x0c' => ['\\', 'f']
  | '\x08' => ['\\', 'b']
  | c => if ' ' ≤ c && c ≤ '~' then [c] else numbered c

/-- A text between quotes. -/
def string (s : String) : String :=
  String.ofList ('"' :: s.toList.flatMap escapedChar ++ ['"'])

/-- A real; the values that JSON itself lacks have names. -/
def real (x : Float) : String :=
  if x.isNaN then "NaN"
  else if x.isInf then (if 0.0 < x then "Infinity" else "-Infinity")
  else realText x

/-- The start of a line at a level of nesting. -/
def newLine (level : Nat) : String := String.ofList ('\n' :: List.replicate (2 * level) ' ')

/-- Parts between brackets, each on a line of its own one level further in. -/
def bracketed (opening closing : String) (level : Nat) (parts : List String) : String :=
  if parts.isEmpty then opening ++ closing
  else
    opening ++ newLine (level + 1) ++ String.intercalate ("," ++ newLine (level + 1)) parts ++
      newLine level ++ closing

end Json

namespace Dump

mutual

/-- Labelled data as JSON that begins at a level of nesting. -/
def jsonAt (level : Nat) : Dump → String
  | node kind line fields =>
    Json.bracketed "\x7b" "\x7d" level
      (("\"kind\": " ++ Json.string kind.label) :: ("\"line\": " ++ integerText line) ::
        jsonFields (level + 1) fields)
  | list entries => Json.bracketed "[" "]" level (jsonList (level + 1) entries)
  | operator _ _ symbol => Json.string symbol
  | text s => Json.string s
  | integer n => integerText n
  | real x => Json.real x
  | flag b => if b then "true" else "false"
  | count n => integerText n
  | absent => "null"

/-- The entries of a list as JSON. -/
def jsonList (level : Nat) : List Dump → List String
  | [] => []
  | d :: ds => jsonAt level d :: jsonList level ds

/-- Fields as JSON, each behind its name. -/
def jsonFields (level : Nat) : List (String × Dump) → List String
  | [] => []
  | (name, d) :: fs => (Json.string name ++ ": " ++ jsonAt level d) :: jsonFields level fs

end

/-- Labelled data as JSON. -/
def json (d : Dump) : String := jsonAt 0 d

end Dump

end CellScript
