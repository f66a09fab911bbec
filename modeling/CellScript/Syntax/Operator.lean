/-!
# Operators

The three families of binary operators, with their spelling and their name, and the two directions
of an increment.
-/

namespace CellScript

/-- Operators that compute. -/
inductive ArithmeticOp
  | add | sub | mul | div | mod
  deriving DecidableEq, Repr

/-- Operators that compare. -/
inductive RelationalOp
  | equal | notEqual | less | lessEqual | greater | greaterEqual
  deriving DecidableEq, Repr

/-- Operators that decide by their first operand whether to look at the second. -/
inductive LogicalOp
  | and | or
  deriving DecidableEq, Repr

namespace ArithmeticOp

/-- How the operator is written. -/
def symbol : ArithmeticOp → String
  | add => "+"
  | sub => "-"
  | mul => "*"
  | div => "/"
  | mod => "%"

/-- The operator's name. -/
def title : ArithmeticOp → String
  | add => "ADD"
  | sub => "SUB"
  | mul => "MUL"
  | div => "DIV"
  | mod => "MOD"

end ArithmeticOp

namespace RelationalOp

/-- How the operator is written. -/
def symbol : RelationalOp → String
  | equal => "=="
  | notEqual => "!="
  | less => "<"
  | lessEqual => "<="
  | greater => ">"
  | greaterEqual => ">="

/-- The operator's name. -/
def title : RelationalOp → String
  | equal => "EQUAL"
  | notEqual => "NOT_EQUAL"
  | less => "LESS"
  | lessEqual => "LESS_EQUAL"
  | greater => "GREATER"
  | greaterEqual => "GREATER_EQUAL"

/-- Whether the operator asks for equality only. -/
def isEquality : RelationalOp → Bool
  | equal => true
  | notEqual => true
  | _ => false

/-- Whether the operator holds for two values in the given order; nothing but `!=` holds of values
that have none. -/
def holds (op : RelationalOp) (order : Option Ordering) : Bool :=
  match op, order with
  | equal, some .eq => true
  | notEqual, some .eq => false
  | notEqual, _ => true
  | less, some .lt => true
  | lessEqual, some .lt => true
  | lessEqual, some .eq => true
  | greater, some .gt => true
  | greaterEqual, some .gt => true
  | greaterEqual, some .eq => true
  | _, _ => false

end RelationalOp

namespace LogicalOp

/-- How the operator is written. -/
def symbol : LogicalOp → String
  | and => "&&"
  | or => "||"

/-- The operator's name. -/
def title : LogicalOp → String
  | and => "AND"
  | or => "OR"

end LogicalOp

/-- The two directions of an increment. -/
inductive Direction
  | up | down
  deriving DecidableEq, Repr

/-- The amount added by a step in a direction. -/
def Direction.delta : Direction → Int
  | .up => 1
  | .down => -1

end CellScript
