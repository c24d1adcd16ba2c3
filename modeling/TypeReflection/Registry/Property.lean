import TypeReflection.Registry.Object
import TypeReflection.Registry.Error
import TypeReflection.Decl.Basic

/-!
# Reflected properties

A property is registered under a name with the text of its declared type and an accessor: a
field of a native class, with the field's type, readable and possibly writable. Reading takes
the field from the part of the object for that class. Writing checks, in this order, that the
property is writable, that the value converts to the field's type, and that the object has a
part of the class; only then the field changes.

Typed access first checks that the asked type has the property's kind of value, and then reads
or writes as above, converting the value to the asked type.
-/

set_option autoImplicit false

namespace TypeReflection

/-- Where a property's value lives: a field of a native class, and whether it can be
written. These are the accessors that `field!` builds, read-write or read-only; an accessor
made from other getter and setter closures is not modelled. -/
structure Accessor where
  owner : NativeClass
  field : String
  fieldType : FieldType
  writable : Bool
  deriving Repr, Inhabited

/-- A registered property. -/
structure Property where
  name : String
  typeName : String
  accessor : Accessor
  decorators : DecoratorList
  deriving Repr, Inhabited

namespace Property

/-- The kind of value the property holds. -/
def kind (p : Property) : ValueKind := p.accessor.fieldType.kind

/-- Whether the property cannot be written. -/
def readOnly (p : Property) : Bool := !p.accessor.writable

/-- The error for an object without a part of the accessor's class. -/
def partMissing (p : Property) (o : Object) : RegistryError :=
  .objectTypeMismatch p.accessor.owner.fullName o.typeName

/-- Reads the property of an object. -/
def getValue (p : Property) (o : Object) : Except RegistryError Value :=
  match o.part? p.accessor.owner with
  | none => .error (p.partMissing o)
  | some part => .ok ((part.field? p.accessor.field).getD p.accessor.fieldType.initial)

/-- Writes the property of an object. -/
def setValue (p : Property) (o : Object) (v : Value) : Except RegistryError Object :=
  if p.readOnly then .error (.readOnlyProperty p.name)
  else match p.accessor.fieldType.convert? v with
    | none => .error (.propertyTypeMismatch p.name p.kind v.kind)
    | some stored =>
      match o.updatePart? p.accessor.owner (Object.setField p.accessor.field stored) with
      | none => .error (p.partMissing o)
      | some o' => .ok o'

/-- Checks that values of type `t` are of the property's kind. -/
def checkKind (p : Property) (t : FieldType) : Except RegistryError Unit :=
  if t.kind == p.kind then .ok () else .error (.propertyTypeMismatch p.name p.kind t.kind)

/-- Reads the property as a value of type `t`. -/
def get (p : Property) (o : Object) (t : FieldType) : Except RegistryError Value := do
  p.checkKind t
  let v ← p.getValue o
  match t.convert? v with
  | some converted => pure converted
  | none => throw (.propertyTypeMismatch p.name p.kind v.kind)

/-- Writes the property from a value already of type `t`. -/
def set (p : Property) (o : Object) (t : FieldType) (v : Value) : Except RegistryError Object := do
  p.checkKind t
  p.setValue o v

end Property

end TypeReflection
