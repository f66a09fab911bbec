import CellScript.Syntax.Operator

/-!
# Syntax trees

A script is a list of statements. Expressions hold no statements. Every node has the line that it
was read from.

Names, members and list elements stand for places. Where a place is read as an operand, a missing
name or member is an error; where it stands as a location, it is made. `Use` tells the two apart,
and `Expr.asOperand` marks a place as read.

Definitions carry an identity, so that declaring the same one twice can be told from two
definitions of one name.
-/

namespace CellScript

/-- Whether a place is made when it is missing, or only read. -/
inductive Use
  | location
  | operand
  deriving DecidableEq, Repr

/-- The identity of a definition: the parse that read it, and its number there. -/
structure DefId where
  unit : Nat
  ordinal : Nat
  deriving DecidableEq, Repr

/-- Expressions. -/
inductive Expr
  | integer (value : Int) (line : Nat)
  | real (value : Float) (line : Nat)
  | string (value : String) (line : Nat)
  | boolean (value : Bool) (line : Nat)
  | undefined (line : Nat)
  | color (components : List Expr) (line : Nat)
  | vector (x y : Expr) (line : Nat)
  | list (elements : List Expr) (line : Nat)
  | name (name : String) (use : Use) (line : Nat)
  | member (target : Expr) (name : String) (use : Use) (line : Nat)
  | index (target position : Expr) (use : Use) (line : Nat)
  | call (function : Expr) (arguments : List Expr) (line : Nat)
  | new (typeName : String) (arguments : List Expr) (line : Nat)
  | negate (operand : Expr) (line : Nat)
  | not (operand : Expr) (line : Nat)
  | preIncrement (operand : Expr) (direction : Direction) (line : Nat)
  | postIncrement (operand : Expr) (direction : Direction) (line : Nat)
  | arithmetic (op : ArithmeticOp) (lhs rhs : Expr) (line : Nat)
  | relational (op : RelationalOp) (lhs rhs : Expr) (line : Nat)
  | logical (op : LogicalOp) (lhs rhs : Expr) (line : Nat)

namespace Expr

/-- The line of an expression. -/
def line : Expr → Nat
  | integer _ l => l
  | real _ l => l
  | string _ l => l
  | boolean _ l => l
  | undefined l => l
  | color _ l => l
  | vector _ _ l => l
  | list _ l => l
  | name _ _ l => l
  | member _ _ _ l => l
  | index _ _ _ l => l
  | call _ _ l => l
  | new _ _ l => l
  | negate _ l => l
  | not _ l => l
  | preIncrement _ _ l => l
  | postIncrement _ _ l => l
  | arithmetic _ _ _ l => l
  | relational _ _ _ l => l
  | logical _ _ _ l => l

/-- Whether an expression stands for a place that an assignment can change. -/
def isLocation : Expr → Bool
  | name _ use _ => use == .location
  | member _ _ use _ => use == .location
  | index _ _ use _ => use == .location
  | _ => false

/-- The expression as an operand: a place in it is read and not made. -/
def asOperand : Expr → Expr
  | name n _ l => name n .operand l
  | member t n _ l => member t n .operand l
  | index t i _ l => index t i .operand l
  | e => e

end Expr

/-- A function definition over statements of type `S`. -/
structure FunctionDef (S : Type) where
  name : String
  parameters : List String
  body : List S
  bodyLine : Nat
  id : DefId
  line : Nat

/-- Statements. -/
inductive Stmt
  | expression (e : Expr)
  | assign (target value : Expr) (line : Nat)
  | update (op : ArithmeticOp) (target value : Expr) (line : Nat)
  | realize (typeName : String) (body : List Stmt) (line : Nat)
  | nop (line : Nat)
  | include (path : String) (body : List Stmt) (line : Nat)
  | block (body : List Stmt) (line : Nat)
  | branch (condition : Expr) (positive : Stmt) (negative : Option Stmt) (line : Nat)
  | loop (body : Stmt) (line : Nat)
  | whileLoop (condition : Expr) (body : Stmt) (line : Nat)
  | doWhile (condition : Expr) (body : Stmt) (line : Nat)
  | forLoop (init : Stmt) (condition : Expr) (step : Stmt) (body : Stmt) (line : Nat)
  | break (line : Nat)
  | continue (line : Nat)
  | return (value : Option Expr) (line : Nat)
  | global (name : String) (line : Nat)
  | function (definition : FunctionDef Stmt)
  | classDef (isInstant : Bool) (name : String) (methods : List (FunctionDef Stmt)) (id : DefId)
      (line : Nat)

/-- A whole script. -/
structure Script where
  statements : List Stmt

end CellScript
