import CellScript.Numeric.Reading
import CellScript.Token.Lexer

/-!
# Reading tokens one at a time

A reader holds the current token and, after a look ahead, the one behind it. Moving on takes the
token that was looked at, if any, so looking ahead is not seen by what follows. A lexical fault
arises when the reader moves or looks onto it; the reader stays where it is, and the next attempt
goes on behind the fault.
-/

namespace CellScript

/-- A place in a stream of tokens. -/
structure Reader where
  current : Token
  /-- The token behind the current one, once it has been looked at. -/
  ahead : Option Token
  stream : TokenStream

namespace Reader

/-- The reader at the first token of a stream. -/
def ofStream (s : TokenStream) : Except LexError Reader :=
  match s.next with
  | (.ok t, rest) => .ok ⟨t, none, rest⟩
  | (.error e, _) => .error e

/-- Take a token from the stream. -/
def pull : EStateM LexError Reader Token := fun r =>
  match r.stream.next with
  | (.ok t, rest) => .ok t { r with stream := rest }
  | (.error e, rest) => .error e { r with stream := rest }

/-- Move to the next token; at the end of the source nothing moves. -/
def advance : EStateM LexError Reader Unit := fun r =>
  if r.current.kind = .endOfSource then .ok () r
  else match r.ahead with
    | some t => .ok () { r with current := t, ahead := none }
    | none =>
      match pull r with
      | .ok t r' => .ok () { r' with current := t }
      | .error e r' => .error e r'

/-- Whether the token behind the current one opens a block. -/
def isBlockStartAhead : EStateM LexError Reader Bool := fun r =>
  match r.ahead with
  | some t => .ok (t.kind == .mark .leftBrace) r
  | none =>
    match pull r with
    | .ok t r' => .ok (t.kind == .mark .leftBrace) { r' with ahead := some t }
    | .error e r' => .error e r'

end Reader

namespace Token

/-- The integer that a token's text stands for, in base sixteen behind `0x`. -/
def integerValue (t : Token) : Except NumeralFault Int :=
  let hexadecimal (ds : List Char) : Except NumeralFault Int :=
    (readHex? ds).elim (.error .malformed) fun n => .ok n
  match t.value.toList with
  | '0' :: 'x' :: ds => hexadecimal ds
  | '0' :: 'X' :: ds => hexadecimal ds
  | cs => readInteger cs

/-- The double that a token's text stands for. -/
def realValue? (t : Token) : Option Float := readReal? t.value.toList

end Token

end CellScript
