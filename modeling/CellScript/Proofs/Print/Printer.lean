import CellScript.Numeric.Layout
import CellScript.Parse.Statement

/-!
# Printing scripts

The text of a script: its tokens with single spaces between them, on one line. Parentheses stand
only where the binding of operators asks for them, and around an expression at the front of a
statement that would begin with a bar or an angle, because no statement begins with those.

* `Lexeme`: a token without its place, and how it is written;
* `Expr.level`, `Expr.lexemesAt`: how tightly an expression binds, and its lexemes where at least a
  given level is asked for;
* `Stmt.lexemes`, `Script.print`: statements and whole scripts.
-/

namespace CellScript

/-- A token without its place. -/
structure Lexeme where
  kind : TokenKind
  value : String
  deriving DecidableEq, Repr

/-- The token without its place. -/
def Token.lexeme (t : Token) : Lexeme := ⟨t.kind, t.value⟩

namespace Lexeme

/-- The lexeme of a mark. -/
def mark (m : Mark) : Lexeme := ⟨.mark m, m.spelling⟩

/-- The lexeme of a keyword. -/
def keyword (k : Keyword) : Lexeme := ⟨.keyword k, k.spelling⟩

/-- The lexeme of a name. -/
def name (n : String) : Lexeme := ⟨.ident, n⟩

/-- The lexeme of a string with the given contents. -/
def string (s : String) : Lexeme := ⟨.string, s⟩

/-- A number in base ten, or in base sixteen if it has too many digits for that. -/
def numeral (n : Nat) : String :=
  let ds := Nat.toDigits 10 n
  String.ofList (if ds.length ≤ maxDigits then ds else '0' :: 'x' :: Nat.toDigits 16 n)

/-- The lexeme of a number. -/
def integer (n : Nat) : Lexeme := ⟨.integer, numeral n⟩

/-- A character as it is written inside a string. -/
def escape (c : Char) : List Char :=
  if c == '\n' then ['\\', 'n']
  else if c == '\r' then ['\\', 'r']
  else if c == '\t' then ['\\', 't']
  else if c == '\x08' then ['\\', 'b']
  else if c == '\\' || c == '"' then ['\\', c]
  else [c]

/-- How a lexeme is written. -/
def text (l : Lexeme) : List Char :=
  match l.kind with
  | .string => '"' :: l.value.toList.flatMap escape ++ ['"']
  | _ => l.value.toList

/-- Lexemes with single spaces between them. -/
def texts (ls : List Lexeme) : List Char := List.intercalate [' '] (ls.map text)

/-- Lexemes in parentheses. -/
def parens (ls : List Lexeme) : List Lexeme := .mark .leftParen :: (ls ++ [.mark .rightParen])

/-- Lexemes in braces. -/
def braces (ls : List Lexeme) : List Lexeme := .mark .leftBrace :: (ls ++ [.mark .rightBrace])

/-- Lexemes in parentheses if they need them. -/
def bracketed (needed : Bool) (ls : List Lexeme) : List Lexeme := if needed then parens ls else ls

/-- The lexemes at the front of a statement: in parentheses if they begin with a bar or an angle. -/
def leading (ls : List Lexeme) : List Lexeme :=
  bracketed (ls.head?.any fun l => l.kind == .mark .bar || l.kind == .mark .less) ls

/-- Names with commas between them. -/
def names : List String → List Lexeme
  | [] => []
  | n :: ns => .name n :: ns.flatMap fun m => [.mark .comma, .name m]

/-- The name of a function: an operator behind `operator` is a lexeme of its own. -/
def functionName (n : String) : List Lexeme :=
  match Mark.all.find? fun m => (Parser.overloadable? (.mark m)).any ("operator" ++ · == n) with
  | some m => [.name "operator", .mark m]
  | none => [.name n]

end Lexeme

/-! ## Operators -/

/-- The mark of an operator. -/
def ArithmeticOp.mark : ArithmeticOp → Mark
  | .add => .add
  | .sub => .sub
  | .mul => .mul
  | .div => .div
  | .mod => .mod

/-- The mark of an assignment that computes. -/
def ArithmeticOp.assignMark : ArithmeticOp → Mark
  | .add => .addAssign
  | .sub => .subAssign
  | .mul => .mulAssign
  | .div => .divAssign
  | .mod => .modAssign

/-- The mark of a comparison. -/
def RelationalOp.mark : RelationalOp → Mark
  | .equal => .equal
  | .notEqual => .notEqual
  | .less => .less
  | .lessEqual => .lessEqual
  | .greater => .greater
  | .greaterEqual => .greaterEqual

/-- The mark of a logical operator. -/
def LogicalOp.mark : LogicalOp → Mark
  | .and => .and
  | .or => .or

/-- The mark of an increment. -/
def Direction.mark : Direction → Mark
  | .up => .increment
  | .down => .decrement

/-- How tightly an operator binds its operands. -/
def ArithmeticOp.level : ArithmeticOp → Nat
  | .add | .sub => 3
  | .mul | .div | .mod => 4

/-- How tightly an operator binds its operands. -/
def LogicalOp.level : LogicalOp → Nat
  | .and => 0
  | .or => 1

/-! ## Expressions -/

/-- How tightly an expression is bound: conjunctions, disjunctions, comparisons, sums, products,
prefixed ones, increments behind a place, selectors, and primaries. -/
def Expr.level : Expr → Nat
  | .logical op _ _ _ => op.level
  | .relational .. => 2
  | .arithmetic op _ _ _ => op.level
  | .negate .. | .not .. | .preIncrement .. => 5
  | .postIncrement .. => 6
  | .member .. | .index .. | .call .. => 7
  | _ => 8

open Lexeme (bracketed) in
mutual

/-- The lexemes of an expression. -/
@[simp] def Expr.lexemes : Expr → List Lexeme
  | .integer v _ => [.integer v.toNat]
  | .real x _ => [⟨.real, realText x⟩]
  | .string s _ => [.string s]
  | .boolean b _ => [.keyword (if b then .true else .false)]
  | .undefined _ => [.keyword .undefined]
  | .color cs _ => .mark .bar :: (Expr.itemLexemes 3 cs ++ [.mark .bar])
  | .vector x y _ =>
    .mark .less :: (bracketed (x.level < 3) x.lexemes ++ .mark .comma ::
      (bracketed (y.level < 3) y.lexemes ++ [.mark .greater]))
  | .list es _ => .mark .leftBracket :: (Expr.itemLexemes 0 es ++ [.mark .rightBracket])
  | .name n _ _ => [.name n]
  | .member t n _ _ => bracketed (t.level < 7) t.lexemes ++ [.mark .dot, .name n]
  | .index t i _ _ =>
    bracketed (t.level < 7) t.lexemes ++ .mark .leftBracket :: (i.lexemes ++ [.mark .rightBracket])
  | .call f es _ =>
    bracketed (f.level < 7) f.lexemes ++ Lexeme.parens (Expr.itemLexemes 0 es)
  | .new t es _ => .keyword .new :: .name t :: Lexeme.parens (Expr.itemLexemes 0 es)
  | .negate e _ => .mark .sub :: bracketed (e.level < 5) e.lexemes
  | .not e _ => .mark .not :: bracketed (e.level < 5) e.lexemes
  | .preIncrement e d _ => .mark d.mark :: bracketed (e.level < 6) e.lexemes
  | .postIncrement e d _ => bracketed (e.level < 7) e.lexemes ++ [.mark d.mark]
  | .arithmetic op a b _ =>
    bracketed (a.level < op.level) a.lexemes ++ .mark op.mark ::
      bracketed (b.level < op.level + 1) b.lexemes
  | .relational op a b _ =>
    bracketed (a.level < 3) a.lexemes ++ .mark op.mark :: bracketed (b.level < 3) b.lexemes
  | .logical op a b _ =>
    bracketed (a.level < op.level) a.lexemes ++ .mark op.mark ::
      bracketed (b.level < op.level + 1) b.lexemes

/-- Expressions of a level with commas between them. -/
def Expr.itemLexemes (level : Nat) : List Expr → List Lexeme
  | [] => []
  | e :: es => bracketed (e.level < level) e.lexemes ++ Expr.moreLexemes level es

/-- Expressions of a level, each behind a comma. -/
def Expr.moreLexemes (level : Nat) : List Expr → List Lexeme
  | [] => []
  | e :: es =>
    .mark .comma :: (bracketed (e.level < level) e.lexemes ++ Expr.moreLexemes level es)

end

/-- The lexemes of an expression where at least a level is asked for. -/
def Expr.lexemesAt (level : Nat) (e : Expr) : List Lexeme :=
  Lexeme.bracketed (e.level < level) e.lexemes

/-! ## Statements -/

/-- The lexemes of an expression or assignment, whose front is treated as given. -/
def Stmt.simpleLexemes (front : List Lexeme → List Lexeme) : Stmt → List Lexeme
  | .expression e => front e.lexemes
  | .assign target value _ => front target.lexemes ++ .mark .assign :: value.lexemes
  | .update op target value _ => front target.lexemes ++ .mark op.assignMark :: value.lexemes
  | _ => []

open Lexeme (parens braces) in
mutual

/-- The lexemes of a statement. -/
@[simp] def Stmt.lexemes : Stmt → List Lexeme
  | .realize t body _ => .name t :: braces (Stmt.lexemesAll body)
  | .nop _ => [.mark .semicolon]
  | .include path _ _ => [.keyword .include, .string path, .mark .semicolon]
  | .block body _ => braces (Stmt.lexemesAll body)
  | .branch c positive negative _ =>
    .keyword .if :: (parens c.lexemes ++ (positive.lexemes ++ Stmt.elseLexemes negative))
  | .loop body _ => .keyword .loop :: body.lexemes
  | .whileLoop c body _ => .keyword .while :: (parens c.lexemes ++ body.lexemes)
  | .doWhile c body _ =>
    .keyword .do :: (body.lexemes ++
      .keyword .while :: (parens c.lexemes ++ [.mark .semicolon]))
  | .forLoop init c step body _ =>
    .keyword .for :: (parens (init.simpleLexemes id ++ .mark .semicolon :: (c.lexemes ++
      .mark .semicolon :: step.simpleLexemes id)) ++ body.lexemes)
  | .break _ => [.keyword .break, .mark .semicolon]
  | .continue _ => [.keyword .continue, .mark .semicolon]
  | .return value _ =>
    .keyword .return :: ((value.elim [] Expr.lexemes) ++ [.mark .semicolon])
  | .global n _ => [.keyword .global, .name n, .mark .semicolon]
  | .function f => FunctionDef.lexemes f
  | .classDef isInstant n methods _ _ =>
    .keyword (if isInstant then .instant else .classDef) :: .name n ::
      braces (FunctionDef.lexemesAll methods)
  | s => s.simpleLexemes Lexeme.leading ++ [.mark .semicolon]

/-- The lexemes of statements. -/
def Stmt.lexemesAll : List Stmt → List Lexeme
  | [] => []
  | s :: ss => s.lexemes ++ Stmt.lexemesAll ss

/-- The lexemes of the second way of a branch. -/
def Stmt.elseLexemes : Option Stmt → List Lexeme
  | none => []
  | some s => .keyword .else :: s.lexemes

/-- The lexemes of a function definition. -/
def FunctionDef.lexemes : FunctionDef Stmt → List Lexeme
  | ⟨name, ps, body, _, _, _⟩ =>
    .keyword .function :: (Lexeme.functionName name ++
      (parens (Lexeme.names ps) ++ braces (Stmt.lexemesAll body)))

/-- The lexemes of function definitions. -/
def FunctionDef.lexemesAll : List (FunctionDef Stmt) → List Lexeme
  | [] => []
  | f :: fs => FunctionDef.lexemes f ++ FunctionDef.lexemesAll fs

end

/-- The text of a script. -/
def Script.print (s : Script) : String :=
  String.ofList (Lexeme.texts (Stmt.lexemesAll s.statements))

/-! ## Trees without places -/

mutual

/-- An expression without its lines. -/
@[simp] def Expr.unplaced : Expr → Expr
  | .integer v _ => .integer v 0
  | .real v _ => .real v 0
  | .string v _ => .string v 0
  | .boolean v _ => .boolean v 0
  | .undefined _ => .undefined 0
  | .color cs _ => .color (Expr.unplacedAll cs) 0
  | .vector x y _ => .vector x.unplaced y.unplaced 0
  | .list es _ => .list (Expr.unplacedAll es) 0
  | .name n u _ => .name n u 0
  | .member t n u _ => .member t.unplaced n u 0
  | .index t i u _ => .index t.unplaced i.unplaced u 0
  | .call f es _ => .call f.unplaced (Expr.unplacedAll es) 0
  | .new t es _ => .new t (Expr.unplacedAll es) 0
  | .negate e _ => .negate e.unplaced 0
  | .not e _ => .not e.unplaced 0
  | .preIncrement e d _ => .preIncrement e.unplaced d 0
  | .postIncrement e d _ => .postIncrement e.unplaced d 0
  | .arithmetic op a b _ => .arithmetic op a.unplaced b.unplaced 0
  | .relational op a b _ => .relational op a.unplaced b.unplaced 0
  | .logical op a b _ => .logical op a.unplaced b.unplaced 0

/-- Expressions without their lines. -/
def Expr.unplacedAll : List Expr → List Expr
  | [] => []
  | e :: es => e.unplaced :: Expr.unplacedAll es

end

mutual

/-- A statement without its lines and without the identities of definitions. -/
@[simp] def Stmt.unplaced : Stmt → Stmt
  | .expression e => .expression e.unplaced
  | .assign t v _ => .assign t.unplaced v.unplaced 0
  | .update op t v _ => .update op t.unplaced v.unplaced 0
  | .realize t body _ => .realize t (Stmt.unplacedAll body) 0
  | .nop _ => .nop 0
  | .include path body _ => .include path (Stmt.unplacedAll body) 0
  | .block body _ => .block (Stmt.unplacedAll body) 0
  | .branch c positive negative _ =>
    .branch c.unplaced positive.unplaced (Stmt.unplacedOption negative) 0
  | .loop body _ => .loop body.unplaced 0
  | .whileLoop c body _ => .whileLoop c.unplaced body.unplaced 0
  | .doWhile c body _ => .doWhile c.unplaced body.unplaced 0
  | .forLoop init c step body _ =>
    .forLoop init.unplaced c.unplaced step.unplaced body.unplaced 0
  | .break _ => .break 0
  | .continue _ => .continue 0
  | .return value _ => .return (value.map Expr.unplaced) 0
  | .global n _ => .global n 0
  | .function f => .function (FunctionDef.unplaced f)
  | .classDef isInstant n methods _ _ =>
    .classDef isInstant n (FunctionDef.unplacedAll methods) ⟨0, 0⟩ 0

/-- Statements without their lines. -/
@[simp] def Stmt.unplacedAll : List Stmt → List Stmt
  | [] => []
  | s :: ss => s.unplaced :: Stmt.unplacedAll ss

/-- A statement, if there is one, without its lines. -/
def Stmt.unplacedOption : Option Stmt → Option Stmt
  | none => none
  | some s => some s.unplaced

/-- A function definition without its lines and its identity. -/
@[simp] def FunctionDef.unplaced : FunctionDef Stmt → FunctionDef Stmt
  | ⟨name, ps, body, _, _, _⟩ => ⟨name, ps, Stmt.unplacedAll body, 0, ⟨0, 0⟩, 0⟩

/-- Function definitions without their lines and identities. -/
def FunctionDef.unplacedAll : List (FunctionDef Stmt) → List (FunctionDef Stmt)
  | [] => []
  | f :: fs => FunctionDef.unplaced f :: FunctionDef.unplacedAll fs

end

/-- A script without its lines and without the identities of definitions. -/
def Script.unplaced (s : Script) : Script := ⟨Stmt.unplacedAll s.statements⟩

end CellScript
