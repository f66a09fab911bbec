import CellScript.Syntax.Tree
import CellScript.Value.Bindings
import CellScript.Value.Builtin
import CellScript.Value.Color
import CellScript.Value.Vector

/-!
# Values and cells

A cell holds one value and is named by a number. Everything that a script can name, every list
element and every object member is a cell. Colors, vectors, lists and objects live beside the cells,
so that several cells, or a cell and a method of its value, can share one of them: a value only
refers to them.
-/

namespace CellScript

/-- A cell. -/
structure Cell where
  index : Nat
  deriving DecidableEq, Repr

/-- A color in storage. -/
structure ColorRef where
  index : Nat
  deriving DecidableEq, Repr

/-- A vector in storage. -/
structure VectorRef where
  index : Nat
  deriving DecidableEq, Repr

/-- A list of cells in storage. -/
structure ListRef where
  index : Nat
  deriving DecidableEq, Repr

/-- An object in storage. -/
structure ObjectRef where
  index : Nat
  deriving DecidableEq, Repr

/-! ## Kinds -/

/-- The kinds of values. -/
inductive Kind
  | undefined | boolean | integer | real | string | color | vector | list | function | object
  | objectType
  deriving DecidableEq, Repr

/-- The name of a kind. -/
def Kind.name : Kind → String
  | undefined => "Undefined"
  | boolean => "Boolean"
  | integer => "Integer"
  | real => "Real"
  | string => "String"
  | color => "Color"
  | vector => "Vector2"
  | list => "List"
  | function => "Function"
  | object => "Object"
  | objectType => "ObjectType"

/-- Whether values of a kind are numbers. -/
def Kind.isNumeric : Kind → Bool
  | integer => true
  | real => true
  | _ => false

/-! ## Methods of built-in values -/

/-- The methods of colors. -/
inductive ColorMethod
  | saturate | lerp | blend
  deriving DecidableEq, Repr

namespace ColorMethod

/-- The method of a name. -/
def ofName? : String → Option ColorMethod
  | "Saturate" => some saturate
  | "Lerp" => some lerp
  | "Blend" => some blend
  | _ => none

/-- The names of the parameters. -/
def parameters : ColorMethod → List String
  | saturate => []
  | lerp => ["other", "t"]
  | blend => ["other"]

end ColorMethod

/-- The methods of vectors. -/
inductive VectorMethod
  | setZero | isZero | isUnitVector | flip | normalize | perpendicularize | length | lengthSquared
  | rotate | rotateDeg | dot | cross | angle
  deriving DecidableEq, Repr

namespace VectorMethod

/-- The method of a name. -/
def ofName? : String → Option VectorMethod
  | "SetZero" => some setZero
  | "IsZero" => some isZero
  | "IsUnitVector" => some isUnitVector
  | "Flip" => some flip
  | "Normalize" => some normalize
  | "Perpendicularize" => some perpendicularize
  | "Length" => some length
  | "LengthSquared" => some lengthSquared
  | "Rotate" => some rotate
  | "RotateDeg" => some rotateDeg
  | "Dot" => some dot
  | "Cross" => some cross
  | "Angle" => some angle
  | _ => none

/-- The names of the parameters. -/
def parameters : VectorMethod → List String
  | rotate => ["phi"]
  | rotateDeg => ["phi"]
  | dot => ["o"]
  | cross => ["o"]
  | angle => ["o"]
  | _ => []

end VectorMethod

/-- The methods of lists. -/
inductive ListMethod
  | size | append
  deriving DecidableEq, Repr

namespace ListMethod

/-- The method of a name. -/
def ofName? : String → Option ListMethod
  | "size" => some size
  | "append" => some append
  | _ => none

/-- The names of the parameters. -/
def parameters : ListMethod → List String
  | size => []
  | append => ["x"]

end ListMethod

/-- The channel of a member name. -/
def Channel.ofName? : String → Option Channel
  | "red" => some .red
  | "green" => some .green
  | "blue" => some .blue
  | "alpha" => some .alpha
  | _ => none

/-- The axis of a member name. -/
def Axis.ofName? : String → Option Axis
  | "x" => some .x
  | "y" => some .y
  | _ => none

/-! ## Values -/

/-- What a call runs. -/
inductive Callable
  /-- A function defined in a script. -/
  | script (parameters : List String) (body : List Stmt) (id : DefId)
  /-- A standard function. -/
  | builtin (f : Builtin)
  /-- A method of a color. -/
  | colorMethod (m : ColorMethod) (r : ColorRef)
  /-- A method of a vector. -/
  | vectorMethod (m : VectorMethod) (r : VectorRef)
  /-- A method of a list. -/
  | listMethod (m : ListMethod) (r : ListRef)
  /-- A function of the host, by name. -/
  | host (name : String) (parameters : List String)

namespace Callable

/-- The names of the parameters. -/
def parameters : Callable → List String
  | script ps _ _ => ps
  | builtin f => f.parameters
  | colorMethod m _ => m.parameters
  | vectorMethod m _ => m.parameters
  | listMethod m _ => m.parameters
  | host _ ps => ps

/-- Whether the function is not written in a script. -/
def isNative : Callable → Bool
  | script _ _ _ => false
  | _ => true

/-- The definition of a script function. -/
def definition? : Callable → Option DefId
  | script _ _ id => some id
  | _ => none

end Callable

/-- A class or instant: a name and methods. Host types have no definition. -/
structure ObjectType where
  name : String
  methods : Bindings Callable
  isInstant : Bool
  definition : Option DefId

/-- A component of a color or vector in storage. -/
inductive Component
  | channel (r : ColorRef) (k : Channel)
  | axis (r : VectorRef) (k : Axis)
  deriving DecidableEq, Repr

/-- A value. -/
inductive Value
  | undefined
  | boolean (b : Bool)
  | integer (n : Int)
  | real (x : Number)
  /-- A real that stands for a component and writes through to it. -/
  | component (c : Component)
  | string (s : String)
  | color (r : ColorRef)
  | vector (r : VectorRef)
  | list (r : ListRef)
  /-- A function, with the object that it is a method of. -/
  | function (f : Callable) (owner : Option ObjectRef)
  | object (r : ObjectRef)
  | objectType (t : ObjectType)

namespace Value

/-- The kind of a value. -/
def kind : Value → Kind
  | undefined => .undefined
  | boolean _ => .boolean
  | integer _ => .integer
  | real _ => .real
  | component _ => .real
  | string _ => .string
  | color _ => .color
  | vector _ => .vector
  | list _ => .list
  | function _ _ => .function
  | object _ => .object
  | objectType _ => .objectType

/-- A number as a value: a whole one is an integer. -/
def ofNumber : Number → Value
  | .whole n => integer n
  | x => real x

end Value

/-- An object in storage: the name of its type and its members. -/
structure ObjectData where
  typeName : String
  members : Bindings Cell

end CellScript
