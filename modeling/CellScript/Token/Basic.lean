import CellScript.Source.Position
import CellScript.Text.Quoted
import CellScript.Token.Kind

/-!
# Tokens and lexical errors
-/

namespace CellScript

/-- A token: its kind, its text (for a string the text that it stands for) and where it begins. -/
structure Token where
  kind : TokenKind
  value : String
  place : Position
  deriving DecidableEq, Repr

namespace Token

/-- The line that a token begins on. -/
def line (t : Token) : Nat := t.place.line

/-- The token that stands for the end of the source. -/
def endAt (p : Position) : Token := ⟨.endOfSource, "", p⟩

/-- A token shown with its kind and quoted text. -/
def describe (t : Token) : String := s!"Token({t.kind.name}, {quoted t.value})"

end Token

/-- What can be wrong with a stretch of source text. -/
inductive LexFault
  | commentNotClosed
  | hexDigitsExpected
  | malformedReal
  | stringNotClosed
  | unknownEscape
  deriving DecidableEq, Repr

/-- The wording of a lexical fault. -/
def LexFault.message : LexFault → String
  | commentNotClosed => "block comment not closed"
  | hexDigitsExpected => "hexadecimal digits expected"
  | malformedReal => "malformed real number"
  | stringNotClosed => "string not closed"
  | unknownEscape => "unknown escape sequence"

/-- A lexical fault and its line. -/
structure LexError where
  fault : LexFault
  line : Nat
  deriving DecidableEq, Repr

end CellScript
