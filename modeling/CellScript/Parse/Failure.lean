import CellScript.Files.Tree
import CellScript.Numeric.Reading
import CellScript.Token.Basic

/-!
# Why a source is not a script
-/

namespace CellScript

/-- What is wrong with a source text. -/
inductive ParseCause
  | lexical (f : LexFault)
  | syntaxError
  /-- A mark or keyword, by its spelling, should stand here. -/
  | expected (spelling : String)
  | identifierExpected
  | parameterNameExpected
  | functionNameExpected
  | fieldNameExpected
  | functionDefinitionExpected
  | duplicateParameter (name : String)
  | ambiguousFunction (name : String)
  | breakOutsideLoop
  | continueOutsideLoop
  | assignmentTarget
  | incrementTarget
  | invalidInclude
  | recursiveInclude (name : String)
  | cannotOpenInclude (name : String)
  deriving DecidableEq, Repr

/-- The wording of a cause. -/
def ParseCause.message : ParseCause → String
  | lexical f => f.message
  | syntaxError => "syntax error"
  | expected spelling => s!"'{spelling}' expected"
  | identifierExpected => "identifier expected"
  | parameterNameExpected => "Parameter name expected"
  | functionNameExpected => "Function name expected"
  | fieldNameExpected => "Field name expected"
  | functionDefinitionExpected => "Function definition expected"
  | duplicateParameter name => s!"duplicate parameter name '{name}'"
  | ambiguousFunction name => s!"Ambiguous function name '{name}'"
  | breakOutsideLoop => "'break' outside of loop"
  | continueOutsideLoop => "'continue' outside of loop"
  | assignmentTarget => "lvalue required as left operand of assignment"
  | incrementTarget => "lvalue required as increment operand"
  | invalidInclude => "invalid include statement"
  | recursiveInclude name => s!"recursive include of '{name}'"
  | cannotOpenInclude name => s!"cannot open include file '{name}'"

/-- A fault in a source text, its line, and the file if there is one. -/
structure ParseError where
  cause : ParseCause
  line : Nat
  path : Option String
  deriving DecidableEq, Repr

/-- The message about a fault: the file, if it has a name, then the cause and the line. -/
def ParseError.message (e : ParseError) : String :=
  let file := match e.path with
    | some p => if p.isEmpty then "" else p ++ ": "
    | none => ""
  s!"{file}{e.cause.message} at line {e.line}"

/-- Why parsing stopped without a script. -/
inductive ParseFailure
  | malformed (e : ParseError)
  /-- The text of a number without a fraction stands for no integer. -/
  | notAnInteger (text : String) (f : NumeralFault)
  /-- The text of a number with a fraction stands for no real. -/
  | notAReal (text : String)
  | unreadable (path : String) (f : FileFault)
  | notUtf8 (f : Utf8.Fault)
  /-- The bound on nesting was too small, which the bounds chosen here never are. -/
  | outOfFuel
  deriving DecidableEq, Repr

/-- The quoted text of a number, cut after two hundred characters. -/
def quotedNumber (text : String) : String := String.ofList ((quoted text).toList.take 200)

/-- The message about a source that is not a script. -/
def ParseFailure.message : ParseFailure → String
  | malformed e => e.message
  | notAnInteger text .malformed =>
    s!"invalid literal for int() with base 10: {quotedNumber text}"
  | notAnInteger _ (.tooLong digits) =>
    s!"Exceeds the limit ({maxDigits} digits) for integer string conversion: value has {digits}" ++
      " digits; use sys.set_int_max_str_digits() to increase the limit"
  | notAReal text => s!"could not convert string to float: {quoted text}"
  | unreadable path f => f.message path
  | notUtf8 f => f.message
  | outOfFuel => "source nested too deeply"

end CellScript
