import TypeReflection.Decimal.Shortest

/-!
# Values of reflected properties

Whatever the type of a field, the registry hands its value over as a `Value`: a boolean, a
signed or unsigned integer of at most 64 bits, a double, a text, or a value of a named enum.
A field's `FieldType` says which values it can hold and how a `Value` is converted to it: an
integer must fit the field's width, a double is rounded to single precision for a `float32`
field, and an enum value must be one that the enum accepts. The converted value is the one the
field stores, so reading the field back gives it.
-/

set_option autoImplicit false

namespace TypeReflection

/-- A value handed over by the registry. -/
inductive Value where
  | bool (b : Bool)
  | int (i : Int)
  | uint (n : Nat)
  | float (f : Float)
  | str (s : String)
  | enum (name : String) (value : Int)
  deriving BEq, Repr, Inhabited

/-- The kinds of value; an enum kind names its enum. -/
inductive ValueKind where
  | bool
  | signed
  | unsigned
  | float
  | string
  | enum (name : String)
  deriving DecidableEq, Repr

namespace ValueKind

/-- How a kind is named in messages. -/
def describe : ValueKind → String
  | .bool => "bool"
  | .signed => "signed integer"
  | .unsigned => "unsigned integer"
  | .float => "float"
  | .string => "string"
  | .enum name => "enum " ++ name

end ValueKind

/-- How a double is written for people: the shortest digits that read back, never with an
exponent, and of two such forms equally near the double the larger; `inf`, `-inf` and `NaN`
otherwise, and a negative zero keeps its sign. -/
def floatText (f : Float) : String :=
  match Decimal.ofFloat .up f with
  | .finite negative d k => (if negative then "-" else "") ++ Decimal.positional d k
  | .infinite negative => if negative then "-inf" else "inf"
  | .nan => "NaN"

namespace Value

/-- The kind of a value. -/
def kind : Value → ValueKind
  | .bool _ => .bool
  | .int _ => .signed
  | .uint _ => .unsigned
  | .float _ => .float
  | .str _ => .string
  | .enum name _ => .enum name

/-- How a value is written for people; an enum value as `Name(value)`. -/
def display : Value → String
  | .bool b => if b then "true" else "false"
  | .int i => toString i
  | .uint n => toString n
  | .float f => floatText f
  | .str s => s
  | .enum name v => name ++ "(" ++ toString v ++ ")"

end Value

/-- The type of a native field. -/
inductive FieldType where
  /-- A signed integer of `bits` bits. -/
  | signed (bits : Nat)
  /-- An unsigned integer of `bits` bits. -/
  | unsigned (bits : Nat)
  | bool
  | float32
  | float64
  | text
  /-- A reflected enum registered as `name`, holding the integers `accepted`; a new field holds
  `initial`. -/
  | enum (name : String) (accepted : List Int) (initial : Int)
  deriving Repr, Inhabited

namespace FieldType

/-- The kind of value the field holds. -/
def kind : FieldType → ValueKind
  | .signed _ => .signed
  | .unsigned _ => .unsigned
  | .bool => .bool
  | .float32 | .float64 => .float
  | .text => .string
  | .enum name .. => .enum name

/-- The value a field of this type holds when an object is made. -/
def initial : FieldType → Value
  | .signed _ => .int 0
  | .unsigned _ => .uint 0
  | .bool => .bool false
  | .float32 | .float64 => .float 0.0
  | .text => .str ""
  | .enum name _ v => .enum name v

/-- Converts a value to what a field of this type stores, if the field can hold it. -/
def convert? : FieldType → Value → Option Value
  | .signed bits, .int i =>
    if -Int.pow 2 (bits - 1) ≤ i && i < Int.pow 2 (bits - 1) then some (.int i) else none
  | .unsigned bits, .uint n => if n < Nat.pow 2 bits then some (.uint n) else none
  | .bool, .bool b => some (.bool b)
  | .float32, .float f => some (.float f.toFloat32.toFloat)
  | .float64, .float f => some (.float f)
  | .text, .str s => some (.str s)
  | .enum name accepted _, .enum _ v => if accepted.contains v then some (.enum name v) else none
  | _, _ => none

end FieldType

end TypeReflection
