/-!
# Kinds of tokens

A token is a name, a literal, a keyword, a mark, a character that starts none of these, or the end
of the source. Keywords and marks are closed lists; each has one spelling and one kind name.
-/

namespace CellScript

/-- The reserved words. -/
inductive Keyword
  | undefined | true | false | function | if | else | while | do | loop | return | continue
  | break | for | classDef | new | instant | global | include
  deriving DecidableEq, Repr

namespace Keyword

/-- How a keyword is written. -/
def spelling : Keyword → String
  | undefined => "undefined"
  | true => "true"
  | false => "false"
  | function => "function"
  | .if => "if"
  | .else => "else"
  | .while => "while"
  | .do => "do"
  | loop => "loop"
  | .return => "return"
  | .continue => "continue"
  | .break => "break"
  | .for => "for"
  | classDef => "class"
  | new => "new"
  | instant => "instant"
  | global => "global"
  | .include => "include"

/-- All keywords. -/
def all : List Keyword :=
  [undefined, true, false, function, .if, .else, .while, .do, loop, .return, .continue, .break,
    .for, classDef, new, instant, global, .include]

/-- The name of the kind: the spelling in capitals. -/
def name (k : Keyword) : String := String.ofList (k.spelling.toList.map Char.toUpper)

/-- The keyword with a given spelling. -/
def ofSpelling? (s : String) : Option Keyword := all.find? (·.spelling == s)

theorem mem_all (k : Keyword) : k ∈ all := by cases k <;> decide

theorem ofSpelling?_spelling (k : Keyword) : ofSpelling? k.spelling = some k := by
  cases k <;> decide

end Keyword

/-- Operators and punctuation. -/
inductive Mark
  | equal | assign | lessEqual | less | greaterEqual | greater | notEqual | not
  | addAssign | increment | add | subAssign | decrement | sub | mulAssign | mul
  | divAssign | div | modAssign | mod | and | or | bar | comma | semicolon | dot
  | leftParen | rightParen | leftBracket | rightBracket | leftBrace | rightBrace
  deriving DecidableEq, Repr

namespace Mark

/-- The characters of a mark. -/
def chars : Mark → List Char
  | equal => ['=', '=']
  | assign => ['=']
  | lessEqual => ['<', '=']
  | less => ['<']
  | greaterEqual => ['>', '=']
  | greater => ['>']
  | notEqual => ['!', '=']
  | not => ['!']
  | addAssign => ['+', '=']
  | increment => ['+', '+']
  | add => ['+']
  | subAssign => ['-', '=']
  | decrement => ['-', '-']
  | sub => ['-']
  | mulAssign => ['*', '=']
  | mul => ['*']
  | divAssign => ['/', '=']
  | div => ['/']
  | modAssign => ['%', '=']
  | mod => ['%']
  | and => ['&', '&']
  | or => ['|', '|']
  | bar => ['|']
  | comma => [',']
  | semicolon => [';']
  | dot => ['.']
  | leftParen => ['(']
  | rightParen => [')']
  | leftBracket => ['[']
  | rightBracket => [']']
  | leftBrace => ['\x7b']
  | rightBrace => ['\x7d']

/-- How a mark is written. -/
def spelling (m : Mark) : String := String.ofList m.chars

/-- All marks. -/
def all : List Mark :=
  [equal, assign, lessEqual, less, greaterEqual, greater, notEqual, not, addAssign, increment, add,
    subAssign, decrement, sub, mulAssign, mul, divAssign, div, modAssign, mod, and, or, bar, comma,
    semicolon, dot, leftParen, rightParen, leftBracket, rightBracket, leftBrace, rightBrace]

/-- The name of the kind. -/
def name : Mark → String
  | equal => "EQUAL"
  | assign => "ASSIGN"
  | lessEqual => "LESS_EQUAL"
  | less => "LESS"
  | greaterEqual => "GREATER_EQUAL"
  | greater => "GREATER"
  | notEqual => "NOT_EQUAL"
  | not => "NOT"
  | addAssign => "ADD_ASSIGN"
  | increment => "INCREMENT"
  | add => "ADD"
  | subAssign => "SUB_ASSIGN"
  | decrement => "DECREMENT"
  | sub => "SUB"
  | mulAssign => "MUL_ASSIGN"
  | mul => "MUL"
  | divAssign => "DIV_ASSIGN"
  | div => "DIV"
  | modAssign => "MOD_ASSIGN"
  | mod => "MOD"
  | and => "AND"
  | or => "OR"
  | bar => "BAR"
  | comma => "COMMA"
  | semicolon => "SEMICOLON"
  | dot => "DOT"
  | leftParen => "LPAREN"
  | rightParen => "RPAREN"
  | leftBracket => "LBRACK"
  | rightBracket => "RBRACK"
  | leftBrace => "LBRACE"
  | rightBrace => "RBRACE"

/-- The mark with exactly the given characters. -/
def ofChars? (cs : List Char) : Option Mark := all.find? (·.chars == cs)

/-- The longest mark at the front of a text. -/
def longest? (c : Char) (cs : List Char) : Option Mark :=
  match cs with
  | [] => ofChars? [c]
  | d :: _ => (ofChars? [c, d]).or (ofChars? [c])

theorem mem_all (m : Mark) : m ∈ all := by cases m <;> decide

theorem ofChars?_chars (m : Mark) : ofChars? m.chars = some m := by cases m <;> decide

end Mark

/-- The kinds of tokens. -/
inductive TokenKind
  | ident
  | integer
  | real
  | string
  | keyword (k : Keyword)
  | mark (m : Mark)
  | invalid
  | endOfSource
  deriving DecidableEq, Repr

/-- The name of a kind. -/
def TokenKind.name : TokenKind → String
  | ident => "IDENT"
  | integer => "INTEGER"
  | real => "REAL"
  | string => "STRING"
  | keyword k => k.name
  | mark m => m.name
  | invalid => "INVALID"
  | endOfSource => "EOS"

end CellScript
