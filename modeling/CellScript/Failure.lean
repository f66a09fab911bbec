import CellScript.Numeric.Number
import CellScript.Value.Basic

/-!
# Why a run stops

A script fails for a cause at a line; a cause that arises in a function of the host has no line
until the call that it escapes from gives it one. Other failures are not the script's own: numbers
without a result, an empty stack, no room for a run, and text conversions nested without end.
-/

namespace CellScript

/-- What a script did wrong. -/
inductive Cause
  | integerExpected
  | realExpected
  | booleanExpected
  | colorExpected
  | vectorExpected
  | notAList
  | notAFunction
  | noMembers
  | indexOutOfRange (size : Nat) (index : Int)
  | unknownIdentifier (name : String)
  | unknownField (name : String)
  | unknownType (name : String)
  | instantWithNew (name : String)
  | noConstructor (name : String)
  | ambiguousGlobal (name : String)
  | ambiguousFunction (name : String)
  | ambiguousClass (name : String)
  | noGlobalScope
  | tooManyArguments (expected given : Nat)
  | callDepthExceeded
  | returnOutside
  | divisionByZero
  | unsupported (lhs : Kind) (symbol : String) (rhs : Kind)
  | cannotNegate (kind : Kind)
  | cannotIncrement (kind : Kind)
  | mathDomain (function : String)
  | notAnInteger (text : String)
  | notAReal (text : String)
  /-- A message of the script itself or of the host. -/
  | custom (message : String)
  deriving DecidableEq, Repr

/-- The wording of a cause. -/
def Cause.message : Cause → String
  | integerExpected => "integer value expected"
  | realExpected => "floating-point value expected"
  | booleanExpected => "boolean value expected"
  | colorExpected => "color value expected"
  | vectorExpected => "vector value expected"
  | notAList => "Not a list"
  | notAFunction => "Not a function"
  | noMembers => "This type does not allow to add members."
  | indexOutOfRange size index =>
    s!"List index out of range, list size is {size} but index is {integerText index}"
  | unknownIdentifier name => s!"Unknown identifier '{name}'"
  | unknownField name => s!"unknown field '{name}'"
  | unknownType name => s!"Unknown object type '{name}'"
  | instantWithNew name => s!"'{name}' is an instant and cannot be created with 'new'"
  | noConstructor name => s!"No matching constructor signature found for '{name}'"
  | ambiguousGlobal name => s!"Ambiguous global name '{name}'"
  | ambiguousFunction name => s!"Ambiguous function name '{name}'"
  | ambiguousClass name => s!"Ambiguous class name '{name}'"
  | noGlobalScope => "no global scope"
  | tooManyArguments expected given =>
    s!"function call with too many parameters (expected {expected} but got {given})"
  | callDepthExceeded => "maximum call depth exceeded"
  | returnOutside => "return outside of a function"
  | divisionByZero => "division by zero"
  | unsupported lhs symbol rhs =>
    s!"unsupported operation between types {lhs.name} {symbol} {rhs.name}"
  | cannotNegate kind => s!"unary minus not defined for type {kind.name}"
  | cannotIncrement kind => s!"increment not defined for type {kind.name}"
  | mathDomain function => s!"math domain error in '{function}'"
  | notAnInteger text => s!"cannot convert '{text}' to int"
  | notAReal text => s!"cannot convert '{text}' to real"
  | custom message => message

/-- Why a run stops. -/
inductive Failure
  | script (cause : Cause) (line : Option Nat)
  | number (f : NumberFault)
  | emptyStack
  /-- The limit on calls leaves no frame on the stack of the machine. -/
  | noFrames
  /-- A text conversion that nests without end. -/
  | exhausted
  /-- The bound on the length of a run was too small. -/
  | outOfFuel
  deriving DecidableEq, Repr, Inhabited

/-- The message of a script's failure: the cause, and its line if it has one. -/
def scriptMessage (cause : Cause) (line : Option Nat) : String :=
  match line with
  | some l => s!"{cause.message} at line {l}"
  | none => cause.message

/-- The message about a failure. -/
def Failure.message : Failure → String
  | script cause line => scriptMessage cause line
  | number f => f.message
  | emptyStack => "empty stack"
  | noFrames => "recursion limit must be greater or equal than 1"
  | exhausted => "text nested without end"
  | outOfFuel => "run too long"

/-- A failure without a line gets the given one. -/
def Failure.located (line : Option Nat) : Failure → Failure
  | script cause none => script cause line
  | f => f

end CellScript
