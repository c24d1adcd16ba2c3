import TypeReflection.Registry.Value

/-!
# Registry errors

What can go wrong when the registry is changed or used, each with its message.
-/

set_option autoImplicit false

namespace TypeReflection

/-- Why a registry operation failed. -/
inductive RegistryError where
  /-- No type is registered under the name. -/
  | unknownType (name : String)
  /-- No enum is registered under the name. -/
  | unknownEnum (name : String)
  /-- Neither the type nor any of its ancestors has the property. -/
  | unknownProperty (type property : String)
  /-- The edge would close a cycle: the parent already derives from the child. -/
  | inheritanceCycle (child parent : String)
  /-- A property was given or asked for a value of the wrong kind. -/
  | propertyTypeMismatch (property : String) (expected found : ValueKind)
  /-- An object or a class is not of the class that was needed. -/
  | objectTypeMismatch (expected found : String)
  /-- The property cannot be written. -/
  | readOnlyProperty (property : String)
  deriving DecidableEq, Repr

/-- The message of a registry error. -/
def RegistryError.message : RegistryError → String
  | .unknownType name => s!"unknown type '{name}'"
  | .unknownEnum name => s!"unknown enum '{name}'"
  | .unknownProperty type property => s!"type '{type}' has no property '{property}'"
  | .inheritanceCycle child parent =>
    s!"'{child}' cannot inherit from '{parent}': '{parent}' already derives from '{child}'"
  | .propertyTypeMismatch property expected found =>
    s!"property '{property}' holds {expected.describe}, not {found.describe}"
  | .objectTypeMismatch expected found => s!"expected an object of type '{expected}', found '{found}'"
  | .readOnlyProperty property => s!"property '{property}' is read-only"

end TypeReflection
