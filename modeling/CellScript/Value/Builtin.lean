/-!
# The standard functions by name

The functions that every script can call, with the names of their parameters. What they do is said
in `Eval.Library`.
-/

namespace CellScript

/-- How serious a log message is. -/
inductive LogLevel
  | debug | info | warning | error | critical
  deriving DecidableEq, Repr

/-- The name of a level. -/
def LogLevel.name : LogLevel → String
  | debug => "DEBUG"
  | info => "INFO"
  | warning => "WARNING"
  | error => "ERROR"
  | critical => "CRITICAL"

/-- Real functions of one number. -/
inductive RealFunction
  | sqrt | log | sin | cos | tan | asin | acos | atan | toDegrees | toRadians
  deriving DecidableEq, Repr

namespace RealFunction

/-- All of them, in the order in which they are bound. -/
def all : List RealFunction := [sqrt, log, sin, cos, tan, asin, acos, atan, toDegrees, toRadians]

/-- The name that scripts use. -/
def name : RealFunction → String
  | sqrt => "sqrt"
  | log => "log"
  | sin => "sin"
  | cos => "cos"
  | tan => "tan"
  | asin => "asin"
  | acos => "acos"
  | atan => "atan"
  | toDegrees => "rad2deg"
  | toRadians => "deg2rad"

end RealFunction

/-- The parts of a color in terms of hue. -/
inductive HsvPart
  | hue | saturation | brightness
  deriving DecidableEq, Repr

/-- The functions that log a message. -/
inductive LogFunction
  | verbose | debug | info | warning | error | fatal
  deriving DecidableEq, Repr

namespace LogFunction

/-- All of them, in the order in which they are bound. -/
def all : List LogFunction := [verbose, debug, info, warning, error, fatal]

/-- The name that scripts use. -/
def name : LogFunction → String
  | verbose => "LogVerbose"
  | debug => "LogDebug"
  | info => "LogInfo"
  | warning => "LogWarning"
  | error => "LogError"
  | fatal => "LogFatal"

/-- The level that the function logs at. -/
def level : LogFunction → LogLevel
  | verbose => .debug
  | debug => .debug
  | info => .info
  | warning => .warning
  | error => .error
  | fatal => .critical

end LogFunction

/-- The standard functions. -/
inductive Builtin
  | print
  | error
  | toInt
  | toReal
  | random
  | randomInt
  | real (f : RealFunction)
  | atan2
  | min
  | max
  | clamp
  | colorFromHue
  | colorFromHsv
  | extract (part : HsvPart)
  | log (f : LogFunction)
  deriving DecidableEq, Repr

namespace Builtin

/-- All standard functions, in the order in which they are bound. -/
def all : List Builtin :=
  [print, error, toInt, toReal, random, randomInt] ++ RealFunction.all.map real ++
    [atan2, min, max, clamp, colorFromHue, colorFromHsv, extract .hue, extract .saturation,
      extract .brightness] ++ LogFunction.all.map log

/-- The name that scripts use. -/
def name : Builtin → String
  | print => "print"
  | error => "error"
  | toInt => "int"
  | toReal => "real"
  | random => "rnd"
  | randomInt => "RandomInt"
  | real f => f.name
  | atan2 => "atan2"
  | min => "min"
  | max => "max"
  | clamp => "clamp"
  | colorFromHue => "colorFromHue"
  | colorFromHsv => "colorFromHSV"
  | extract .hue => "extractHue"
  | extract .saturation => "extractSaturation"
  | extract .brightness => "extractBrightness"
  | log f => f.name

/-- The names of the parameters. -/
def parameters : Builtin → List String
  | print => ["msg"]
  | error => ["msg"]
  | toInt => ["x"]
  | toReal => ["x"]
  | random => []
  | randomInt => ["a", "b"]
  | real _ => ["x"]
  | atan2 => ["x", "y"]
  | min => ["x", "y"]
  | max => ["x", "y"]
  | clamp => ["x", "lo", "hi"]
  | colorFromHue => ["h"]
  | colorFromHsv => ["h", "s", "v"]
  | extract _ => ["c"]
  | log _ => ["msg"]

end Builtin

end CellScript
