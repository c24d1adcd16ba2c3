import TypeReflection.Registry.Value

/-!
# Native objects

The registry describes objects of native classes. A native class has a name, a full name
(used in messages about the class itself), typed fields, and optionally a base class whose
object it embeds. An object of a class holds a value for each of its own fields and the
embedded object of its base class.

The *part* of an object for a class is the object itself if it is of that class, or else the
part for that class of its embedded base: properties read and write fields through the part of
the class that declares them.
-/

set_option autoImplicit false

namespace TypeReflection

/-- A native class: name, full name, fields with their types, and base class. -/
inductive NativeClass where
  | mk (name fullName : String) (fields : List (String × FieldType)) (base : Option NativeClass)
  deriving Repr, Inhabited

namespace NativeClass

/-- The name of the class. -/
def name : NativeClass → String
  | mk name .. => name

/-- The full name of the class. -/
def fullName : NativeClass → String
  | mk _ fullName .. => fullName

/-- The root class every registry knows, with no fields. -/
def objectBase : NativeClass := .mk "ObjectBase" "ObjectBase" [] none

/-- Whether two classes are the same class, that is have the same full name. -/
def same (a b : NativeClass) : Bool := a.fullName == b.fullName

end NativeClass

/-- An object of a native class: its class, its own fields' values and its embedded base. -/
inductive Object where
  | mk (cls : NativeClass) (fields : List (String × Value)) (base : Option Object)
  deriving Repr, Inhabited

/-- A new object of a class: every field holds its initial value. -/
def NativeClass.instantiate : NativeClass → Object
  | c@(.mk _ _ fields base) =>
    .mk c (fields.map fun (n, t) => (n, t.initial)) (match base with
      | none => none
      | some b => some b.instantiate)

namespace Object

/-- The class of the object. -/
def cls : Object → NativeClass
  | mk c .. => c

/-- The name of the object's class. -/
def typeName (o : Object) : String := o.cls.name

/-- The part of the object for class `c`. -/
def part? (c : NativeClass) : Object → Option Object
  | o@(mk oc _ base) =>
    if oc.same c then some o
    else match base with
      | none => none
      | some b => part? c b

/-- Applies `f` to the part of the object for class `c`, if there is one. -/
def updatePart? (c : NativeClass) (f : Object → Object) : Object → Option Object
  | o@(mk oc fields base) =>
    if oc.same c then some (f o)
    else match base with
      | none => none
      | some b => (updatePart? c f b).map fun b' => mk oc fields (some b')

/-- The value of the object's own field `name`. -/
def field? (o : Object) (name : String) : Option Value :=
  match o with
  | mk _ fields _ => (fields.find? (·.1 == name)).map (·.2)

/-- The object with its own field `name` set to `v`. -/
def setField (name : String) (v : Value) : Object → Object
  | mk c fields base => mk c (fields.map fun (n, old) => if n == name then (n, v) else (n, old)) base

/-- All fields of the object and of its embedded bases, own fields first. -/
def allFields : Object → List (String × Value)
  | mk _ fields none => fields
  | mk _ fields (some b) => fields ++ b.allFields

end Object

end TypeReflection
