import TypeReflection.Decl.Basic
import TypeReflection.Decl.ReadOnly

/-!
# Registration plans

A header's declarations become a registration plan in four sections, registered in four
passes across a whole project so that enums and parents exist before anything refers to them:
enums, types, inheritance edges and properties, each in header order.

A type with properties gets a serializer: its properties, skipping those decorated
`DontSerialize` and those whose type can be written neither as a plain value (a fixed list of
primitive, string and math types) nor as an enum of the same header, which is written by
name.
-/

set_option autoImplicit false

namespace TypeReflection

/-- How a serialized field is written: as a plain value, or by name as a value of an enum. -/
inductive FieldKind where
  | value
  | enum (name : String)
  deriving DecidableEq, Repr

/-- The types whose values an archive writes directly. -/
def serializableTypes : List String := [
  "int8", "uint8", "int16", "uint16", "int32", "uint32", "int64", "uint64", "bool", "float",
  "double", "char*", "const char*", "std::string", "std::string_view", "const std::string",
  "const std::string_view", "std::string&", "std::string_view&", "const std::string&",
  "const std::string_view&", "int", "long", "unsigned", "unsigned long", "long int",
  "unsigned long int", "unsigned int", "unsigned long long", "long long", "Vector2", "Vector3",
  "Vector4", "Color", "Quaternion"]

/-- The decorator that keeps a property out of its type's serializer. -/
def dontSerialize : String := "DontSerialize"

/-- How a value of type text `type` is serialized, given the header's enums; none when it
cannot be. -/
def classifyField (type : String) (enums : List EnumDecl) : Option FieldKind :=
  if serializableTypes.contains type then some .value
  else (enums.find? (·.name == type)).map fun e => .enum e.name

/-- A field of a serializer: a property and how it is written. -/
structure SerializedField where
  property : String
  kind : FieldKind
  deriving DecidableEq, Repr

/-- The serialized fields of a record, in order. -/
def serializedFields (record : RecordDecl) (enums : List EnumDecl) : List SerializedField :=
  record.properties.filterMap fun p =>
    if p.decorators.has dontSerialize then none
    else (classifyField p.type enums).map fun k => ⟨p.name, k⟩

/-- An enum to register, with its values in order. -/
structure EnumRegistration where
  name : String
  values : List (String × Int)
  isScoped : Bool
  deriving DecidableEq, Repr

/-- A type to register: kind, decorators, the line of its body anchor, and its serializer,
absent when it has no properties. -/
structure TypeRegistration where
  name : String
  kind : RecordKind
  decorators : DecoratorList
  bodyLine : Option Nat
  serializer : Option (List SerializedField)
  deriving DecidableEq, Repr

/-- An inheritance edge from a child type to a parent type. -/
structure InheritanceEdge where
  child : String
  parent : String
  deriving DecidableEq, Repr

/-- A property to register on its owner type. -/
structure PropertyRegistration where
  owner : String
  name : String
  type : String
  readOnly : Bool
  decorators : DecoratorList
  deriving DecidableEq, Repr

/-- What one header registers, section by section. -/
structure RegistrationPlan where
  enums : List EnumRegistration
  types : List TypeRegistration
  inheritance : List InheritanceEdge
  properties : List PropertyRegistration
  deriving DecidableEq, Repr

namespace RegistrationPlan

/-- The plan of a header's declarations. -/
def ofDecls (decls : FileDecls) : RegistrationPlan where
  enums := decls.enums.map fun e => ⟨e.name, e.values.map fun v => (v.name, v.value), e.isScoped⟩
  types := decls.records.map fun r =>
    ⟨r.name, r.kind, r.decorators, r.bodyLine,
      if r.properties.isEmpty then none else some (serializedFields r decls.enums)⟩
  inheritance := decls.records.flatMap fun r => r.parents.map fun p => ⟨r.name, p⟩
  properties := decls.records.flatMap fun r =>
    r.properties.map fun p =>
      ⟨r.name, p.name, p.type, ReadOnly.isReadOnlyType p.type, p.decorators⟩

/-- The properties registered on types called `owner`. -/
def propertiesOf (plan : RegistrationPlan) (owner : String) : List PropertyRegistration :=
  plan.properties.filter (·.owner == owner)

/-- Whether the plan registers no enum and no type. -/
def isEmpty (plan : RegistrationPlan) : Bool := plan.enums.isEmpty && plan.types.isEmpty

end RegistrationPlan

/-- The four registration passes, in the order they run. -/
inductive RegistrationPass where
  | enums
  | types
  | inheritance
  | properties
  deriving DecidableEq, Repr

namespace RegistrationPass

/-- All passes, in order. -/
def all : List RegistrationPass := [.enums, .types, .inheritance, .properties]

/-- The name of the function that runs the pass for the file with id text `id`. -/
def functionName (pass : RegistrationPass) (id : String) : String :=
  let suffix := match pass with
    | .enums => "RegisterEnums"
    | .types => "RegisterTypes"
    | .inheritance => "RegisterInheritance"
    | .properties => "RegisterProperties"
  s!"Z_{id}_{suffix}"

end RegistrationPass

end TypeReflection
