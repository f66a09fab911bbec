import CellScript.Numeric.Layout
import CellScript.Syntax.Tree
import CellScript.Text.Quoted

/-!
# Trees as data

`Script.dump` turns a tree into labelled data: every node becomes its kind, its line and its fields
in order. `Dump.outline` shows such data on one line, lists cut after three entries and absent
fields left out.
-/

namespace CellScript

/-- The kinds of nodes. -/
inductive NodeKind
  | arithmetic | assignment | block | boolean | break | call | classDef | color | compoundAssignment
  | continue | doWhile | for | function | global | if | include | index | instant | integer | list
  | logical | loop | member | name | negate | new | nop | not | postIncrement | preIncrement | real
  | realization | relational | return | sequence | string | undefined | vector | while
  deriving DecidableEq, Repr

namespace NodeKind

/-- All kinds, sorted by name. -/
def all : List NodeKind :=
  [arithmetic, assignment, block, boolean, .break, call, classDef, color, compoundAssignment,
    .continue, doWhile, .for, function, global, .if, .include, index, instant, integer, list,
    logical, loop, member, name, negate, new, nop, not, postIncrement, preIncrement, real,
    realization, relational, .return, sequence, string, undefined, vector, .while]

/-- The name of a kind in data, and its title in an outline. -/
def labels : NodeKind → String × String
  | arithmetic => ("arithmetic", "ArithmeticOperation")
  | assignment => ("assignment", "Assignment")
  | block => ("block", "StatementBlock")
  | boolean => ("boolean", "BooleanLiteral")
  | .break => ("break", "BreakStatement")
  | call => ("call", "FunctionCall")
  | classDef => ("class", "ClassDefinition")
  | color => ("color", "ColorLiteral")
  | compoundAssignment => ("compound_assignment", "CompoundAssignment")
  | .continue => ("continue", "ContinueStatement")
  | doWhile => ("do_while", "DoWhileStatement")
  | .for => ("for", "ForStatement")
  | function => ("function", "FunctionDefinition")
  | global => ("global", "GlobalStatement")
  | .if => ("if", "IfStatement")
  | .include => ("include", "IncludeStatement")
  | index => ("index", "ListAccess")
  | instant => ("instant", "InstantDefinition")
  | integer => ("integer", "IntegerLiteral")
  | list => ("list", "ListLiteral")
  | logical => ("logical", "LogicalOperation")
  | loop => ("loop", "LoopStatement")
  | member => ("member", "MemberAccess")
  | name => ("name", "SimpleName")
  | negate => ("negate", "UnaryMinus")
  | new => ("new", "NewExpression")
  | nop => ("nop", "NopStatement")
  | not => ("not", "LogicalNot")
  | postIncrement => ("post_increment", "PostIncrement")
  | preIncrement => ("pre_increment", "PreIncrement")
  | real => ("real", "RealLiteral")
  | realization => ("realization", "InstantRealization")
  | relational => ("relational", "RelationalOperation")
  | .return => ("return", "ReturnStatement")
  | sequence => ("sequence", "StatementSequence")
  | string => ("string", "StringLiteral")
  | undefined => ("undefined", "UndefinedLiteral")
  | vector => ("vector", "VectorLiteral")
  | .while => ("while", "WhileStatement")

/-- The name of a kind in data. -/
def label (k : NodeKind) : String := k.labels.1

/-- The title of a kind in an outline. -/
def title (k : NodeKind) : String := k.labels.2

end NodeKind

/-- A tree as labelled data. -/
inductive Dump
  | node (kind : NodeKind) (line : Nat) (fields : List (String × Dump))
  | list (entries : List Dump)
  | operator (family title symbol : String)
  | text (s : String)
  | integer (n : Int)
  | real (x : Float)
  | flag (b : Bool)
  | count (n : Int)
  | absent

/-! ## Trees to data -/

/-- An arithmetic operator as data. -/
def ArithmeticOp.dump (op : ArithmeticOp) : Dump :=
  .operator "ArithmeticOperator" op.title op.symbol

/-- A relational operator as data. -/
def RelationalOp.dump (op : RelationalOp) : Dump :=
  .operator "RelationalOperator" op.title op.symbol

/-- A logical operator as data. -/
def LogicalOp.dump (op : LogicalOp) : Dump :=
  .operator "LogicalOperator" op.title op.symbol

mutual

/-- An expression as data. -/
def Expr.dump : Expr → Dump
  | .integer v l => .node .integer l [("value", .integer v)]
  | .real v l => .node .real l [("value", .real v)]
  | .string v l => .node .string l [("value", .text v)]
  | .boolean v l => .node .boolean l [("value", .flag v)]
  | .undefined l => .node .undefined l []
  | .color cs l => .node .color l [("components", .list (Expr.dumpList cs))]
  | .vector x y l => .node .vector l [("x", x.dump), ("y", y.dump)]
  | .list es l => .node .list l [("elements", .list (Expr.dumpList es))]
  | .name n _ l => .node .name l [("name", .text n)]
  | .member t n _ l => .node .member l [("target", t.dump), ("name", .text n)]
  | .index t i _ l => .node .index l [("target", t.dump), ("index", i.dump)]
  | .call f as l =>
    .node .call l [("function", f.dump), ("arguments", .list (Expr.dumpList as))]
  | .new t as l =>
    .node .new l [("type_name", .text t), ("arguments", .list (Expr.dumpList as))]
  | .negate e l => .node .negate l [("operand", e.dump)]
  | .not e l => .node .not l [("operand", e.dump)]
  | .preIncrement e d l =>
    .node .preIncrement l [("operand", e.dump), ("delta", .count d.delta)]
  | .postIncrement e d l =>
    .node .postIncrement l [("operand", e.dump), ("delta", .count d.delta)]
  | .arithmetic op a b l =>
    .node .arithmetic l [("operator", op.dump), ("lhs", a.dump), ("rhs", b.dump)]
  | .relational op a b l =>
    .node .relational l [("operator", op.dump), ("lhs", a.dump), ("rhs", b.dump)]
  | .logical op a b l =>
    .node .logical l [("operator", op.dump), ("lhs", a.dump), ("rhs", b.dump)]

/-- Expressions as data. -/
def Expr.dumpList : List Expr → List Dump
  | [] => []
  | e :: es => e.dump :: Expr.dumpList es

end

/-- An expression as data where there is one. -/
def Expr.dumpOption : Option Expr → Dump
  | none => .absent
  | some e => e.dump

mutual

/-- A statement as data. -/
def Stmt.dump : Stmt → Dump
  | .expression e => e.dump
  | .assign t v l => .node .assignment l [("target", t.dump), ("value", v.dump)]
  | .update op t v l =>
    .node .compoundAssignment l [("operator", op.dump), ("target", t.dump), ("value", v.dump)]
  | .realize t ss l =>
    .node .realization l [("type_name", .text t), ("statements", .list (Stmt.dumpList ss))]
  | .nop l => .node .nop l []
  | .include p ss l =>
    .node .include l [("path", .text p), ("statements", .list (Stmt.dumpList ss))]
  | .block ss l => .node .block l [("statements", .list (Stmt.dumpList ss))]
  | .branch c t e l =>
    .node .if l [("condition", c.dump), ("then_branch", t.dump),
      ("else_branch", Stmt.dumpOption e)]
  | .loop b l => .node .loop l [("body", b.dump)]
  | .whileLoop c b l => .node .while l [("condition", c.dump), ("body", b.dump)]
  | .doWhile c b l => .node .doWhile l [("condition", c.dump), ("body", b.dump)]
  | .forLoop i c s b l =>
    .node .for l [("init", i.dump), ("condition", c.dump), ("step", s.dump), ("body", b.dump)]
  | .break l => .node .break l []
  | .continue l => .node .continue l []
  | .return v l => .node .return l [("value", Expr.dumpOption v)]
  | .global n l => .node .global l [("name", .text n)]
  | .function f => FunctionDef.dump f
  | .classDef isInstant n ms _ l =>
    .node (if isInstant then .instant else .classDef) l
      [("name", .text n), ("methods", .list (FunctionDef.dumpList ms))]

/-- Statements as data. -/
def Stmt.dumpList : List Stmt → List Dump
  | [] => []
  | s :: ss => s.dump :: Stmt.dumpList ss

/-- A statement as data where there is one. -/
def Stmt.dumpOption : Option Stmt → Dump
  | none => .absent
  | some s => s.dump

/-- A function definition as data. -/
def FunctionDef.dump : FunctionDef Stmt → Dump
  | ⟨n, ps, ss, bodyLine, _, l⟩ =>
    .node .function l [("name", .text n), ("parameters", .list (ps.map .text)),
      ("body", .node .sequence bodyLine [("statements", .list (Stmt.dumpList ss))])]

/-- Function definitions as data. -/
def FunctionDef.dumpList : List (FunctionDef Stmt) → List Dump
  | [] => []
  | f :: fs => FunctionDef.dump f :: FunctionDef.dumpList fs

end

/-- A script as data. -/
def Script.dump (s : Script) : Dump :=
  .node .sequence 1 [("statements", .list (Stmt.dumpList s.statements))]

/-! ## Outlines -/

namespace Dump

mutual

/-- Labelled data on one line. -/
def outline : Dump → String
  | node kind _ fields => kind.title ++ "(" ++ String.intercalate ", " (outlineFields fields) ++ ")"
  | list entries => "[" ++ String.intercalate ", " (outlineFirst 3 entries) ++ "]"
  | operator family title symbol => s!"<{family}.{title}: {quoted symbol}>"
  | text s => quoted s
  | integer n => integerText n
  | real x => realText x
  | flag b => if b then "True" else "False"
  | count n => integerText n
  | absent => "None"

/-- The first entries of a list, and dots for the others. -/
def outlineFirst : Nat → List Dump → List String
  | _, [] => []
  | 0, _ :: _ => ["..."]
  | n + 1, d :: ds => outline d :: outlineFirst n ds

/-- Fields with their names, without the absent ones. -/
def outlineFields : List (String × Dump) → List String
  | [] => []
  | (_, absent) :: fs => outlineFields fs
  | (name, d) :: fs => (name ++ "=" ++ outline d) :: outlineFields fs

end

end Dump

end CellScript
