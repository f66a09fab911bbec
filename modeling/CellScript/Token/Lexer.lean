import CellScript.Text.Blank
import CellScript.Text.Numeral
import CellScript.Token.Basic

/-!
# From text to tokens

`scan` takes one piece off the front of a text: a gap (one blank or a comment), a token, or a fault.
Every piece has a lexeme of at least one character, and the lexeme and the rest make up the text
(`scan_append`, `scan_lexeme_ne_nil`). `TokenStream.ofChars` repeats this to the end of the text, in
as many turns as the text has characters, and keeps going behind a fault, so that a reader can do
so too.
-/

namespace CellScript

namespace Lexer

/-- What stands at the front of a text. -/
inductive Piece
  | gap
  | token (kind : TokenKind) (value : String)
  | fault (f : LexFault)
  deriving DecidableEq, Repr

/-- A piece, the characters that it is made of, and those behind it. -/
structure Scan where
  piece : Piece
  lexeme : List Char
  rest : List Char
  deriving DecidableEq, Repr

/-! ## Comments -/

/-- The text up to and with the end of a block comment, and what follows. -/
def splitComment : List Char → Option (List Char × List Char)
  | [] => none
  | '*' :: '/' :: rest => some (['*', '/'], rest)
  | c :: rest => (splitComment rest).map fun (body, left) => (c :: body, left)

/-- A comment that begins with the given two characters. -/
def scanBlockComment (cs : List Char) : Scan :=
  match splitComment cs with
  | some (body, rest) => ⟨.gap, '/' :: '*' :: body, rest⟩
  | none => ⟨.fault .commentNotClosed, '/' :: '*' :: cs, []⟩

/-- Whether a line goes on with this character. -/
def inLine (c : Char) : Bool := c != '\n'

/-- A comment that ends with its line. -/
def scanLineComment (cs : List Char) : Scan :=
  ⟨.gap, '/' :: '/' :: cs.takeWhile inLine, cs.dropWhile inLine⟩

/-! ## Names -/

/-- A name or keyword that begins with `c`. -/
def scanName (c : Char) (cs : List Char) : Scan :=
  let lexeme := c :: cs.takeWhile isNameChar
  let value := String.ofList lexeme
  let kind := match Keyword.ofSpelling? value with
    | some k => TokenKind.keyword k
    | none => .ident
  ⟨.token kind value, lexeme, cs.dropWhile isNameChar⟩

/-! ## Numbers -/

/-- Whether a character is a hexadecimal digit. -/
def isHexDigit (c : Char) : Bool :=
  ('0' ≤ c && c ≤ '9') || ('a' ≤ c && c ≤ 'f') || ('A' ≤ c && c ≤ 'F')

/-- A hexadecimal number: `0`, then `x`, then digits. -/
def scanHex (x : Char) (cs : List Char) : Scan :=
  let digits := cs.takeWhile isHexDigit
  let lexeme := '0' :: x :: digits
  let piece := if digits.isEmpty then .fault .hexDigitsExpected
    else .token .integer (String.ofList lexeme)
  ⟨piece, lexeme, cs.dropWhile isHexDigit⟩

/-- A number whose whole digits are given and which goes on with a point and `cs`. -/
def scanFraction (whole : List Char) (cs : List Char) : Scan :=
  let lexeme := whole ++ '.' :: cs.takeWhile isDigit
  match cs.dropWhile isDigit with
  | '.' :: rest => ⟨.fault .malformedReal, lexeme, '.' :: rest⟩
  | rest => ⟨.token .real (String.ofList lexeme), lexeme, rest⟩

/-- A decimal number that begins with the digit `c`. -/
def scanDecimal (c : Char) (cs : List Char) : Scan :=
  let whole := c :: cs.takeWhile isDigit
  match cs.dropWhile isDigit with
  | '.' :: rest => scanFraction whole rest
  | rest => ⟨.token .integer (String.ofList whole), whole, rest⟩

/-- A number that begins with the digit `c`. -/
def scanNumber (c : Char) (cs : List Char) : Scan :=
  match c, cs with
  | '0', 'x' :: rest => scanHex 'x' rest
  | '0', 'X' :: rest => scanHex 'X' rest
  | c, cs => scanDecimal c cs

/-! ## Strings -/

/-- The character that an escape stands for. -/
def escaped? (c : Char) : Option Char :=
  match c with
  | 'n' => some '\n'
  | 'r' => some '\r'
  | 't' => some '\t'
  | 'b' => some '\x08'
  | '\\' => some '\\'
  | '"' => some '"'
  | _ => none

/-- The inside of a string: its characters as written, what follows them, and the text that they
stand for. -/
structure Contents where
  lexeme : List Char
  rest : List Char
  value : Except LexFault (List Char)

/-- Contents with more in front: `written` in the source, standing for `c`. -/
def Contents.push (s : Contents) (written : List Char) (c : Char) : Contents :=
  ⟨written ++ s.lexeme, s.rest, s.value.map (c :: ·)⟩

/-- Read a string behind its opening quote, up to and with the closing one. -/
def scanContents : List Char → Contents
  | [] => ⟨[], [], .error .stringNotClosed⟩
  | '\\' :: [] => ⟨['\\'], [], .error .unknownEscape⟩
  | '\\' :: e :: rest =>
    match escaped? e with
    | some c => (scanContents rest).push ['\\', e] c
    | none => ⟨['\\'], e :: rest, .error .unknownEscape⟩
  | c :: rest =>
    if c == '"' then ⟨['"'], rest, .ok []⟩
    else if c == '\n' then ⟨[], c :: rest, .error .stringNotClosed⟩
    else (scanContents rest).push [c] c

/-- A string behind its opening quote. -/
def scanString (cs : List Char) : Scan :=
  let s := scanContents cs
  let piece := match s.value with
    | .ok value => .token .string (String.ofList value)
    | .error f => .fault f
  ⟨piece, '"' :: s.lexeme, s.rest⟩

/-! ## Pieces -/

/-- A mark, or a character that starts nothing. -/
def scanMark (c : Char) (cs : List Char) : Scan :=
  match Mark.longest? c cs with
  | some m =>
    let more := m.chars.length - 1
    ⟨.token (.mark m) m.spelling, c :: cs.take more, cs.drop more⟩
  | none => ⟨.token .invalid (String.ofList [c]), [c], cs⟩

/-- Whether a text goes on with a digit. -/
def startsWithDigit : List Char → Bool
  | [] => false
  | c :: _ => isDigit c

/-- The piece at the front of the text `c :: cs`. -/
def scan (c : Char) (cs : List Char) : Scan :=
  if isGap c then ⟨.gap, [c], cs⟩
  else if c == '/' && cs.head? == some '/' then scanLineComment cs.tail
  else if c == '/' && cs.head? == some '*' then scanBlockComment cs.tail
  else if isNameStart c then scanName c cs
  else if isDigit c then scanNumber c cs
  else if c == '.' && startsWithDigit cs then scanFraction [] cs
  else if c == '"' then scanString cs
  else scanMark c cs

end Lexer

/-! ## The tokens of a text -/

/-- The tokens and faults of a text in order, and the place of its end. -/
structure TokenStream where
  steps : List (Except LexError Token)
  stop : Position

namespace TokenStream

/-- A stream with one more step in front. -/
def cons (step : Except LexError Token) (s : TokenStream) : TokenStream := ⟨step :: s.steps, s.stop⟩

/-- The tokens of a text that begins at a place, in at most `turns` pieces. -/
def scanFrom : (turns : Nat) → Position → List Char → TokenStream
  | 0, p, _ => ⟨[], p⟩
  | _ + 1, p, [] => ⟨[], p⟩
  | n + 1, p, c :: cs =>
    let s := Lexer.scan c cs
    let more := scanFrom n (p.advance s.lexeme) s.rest
    match s.piece with
    | .gap => more
    | .token kind value => more.cons (.ok ⟨kind, value, p⟩)
    | .fault f => more.cons (.error ⟨f, p.line⟩)

/-- The tokens of a text. -/
def ofChars (cs : List Char) : TokenStream := scanFrom cs.length .start cs

/-- The tokens of a text. -/
def ofString (s : String) : TokenStream := ofChars s.toList

/-- The next step and the stream behind it; the end repeats for ever. -/
def next (s : TokenStream) : Except LexError Token × TokenStream :=
  match s.steps with
  | [] => (.ok (.endAt s.stop), s)
  | step :: rest => (step, ⟨rest, s.stop⟩)

/-- The tokens up to the first fault, with the end if there is none. -/
def tokens (s : TokenStream) : List Token × Option LexError :=
  go s.steps
where
  /-- Collect the tokens of the steps. -/
  go : List (Except LexError Token) → List Token × Option LexError
    | [] => ([.endAt s.stop], none)
    | .ok t :: rest =>
      let (ts, e) := go rest
      (t :: ts, e)
    | .error e :: _ => ([], some e)

end TokenStream

end CellScript
