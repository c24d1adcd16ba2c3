import TypeReflection.Registry.Basic

/-!
# Registering modules

A module registers its enums, types, inheritance edges and properties in four separate
passes. Registering several modules runs each pass over all of them before the next pass
starts, so that a module may name parents and enums that another module registers. The first
failure stops everything; what was registered before it stays.
-/

set_option autoImplicit false

namespace TypeReflection

/-- One change to a registry. -/
inductive RegistryAction where
  /-- Registers a type. -/
  | addType (name : String) (native : NativeClass) (serializer : Option Serializer)
      (decorators : DecoratorList)
  /-- Registers an enum with its values, each given or following the previous one. -/
  | addEnum (name : String) (values : List (String × Option Int))
  /-- Adds an inheritance edge. -/
  | addParent (child parent : String)
  /-- Registers a property on a type. -/
  | addProperty (owner : String) (property : Property)
  deriving Repr

/-- The enum built from a name and values. -/
def EnumType.build (name : String) (values : List (String × Option Int)) : EnumType :=
  values.foldl (fun e (n, v) => e.addValue n v) (EnumType.empty name)

namespace Registry

/-- Applies one change. -/
def apply (r : Registry) : RegistryAction → Except RegistryError Registry
  | .addType name native serializer decorators => .ok (r.addType name native serializer decorators).1
  | .addEnum name values => .ok (r.putEnum (EnumType.build name values))
  | .addParent child parent => r.addParent child parent
  | .addProperty owner p => r.addProperty owner p

/-- Applies changes in order until one fails. Gives the registry as it then is and the
failure. -/
def applyAll (r : Registry) : List RegistryAction → Registry × Option RegistryError
  | [] => (r, none)
  | a :: rest =>
    match r.apply a with
    | .ok r' => r'.applyAll rest
    | .error e => (r, some e)

end Registry

/-- What a module registers, pass by pass. -/
structure Registration where
  enums : List RegistryAction
  types : List RegistryAction
  inheritance : List RegistryAction
  properties : List RegistryAction
  deriving Repr

/-- Registers modules: all enum passes, then all type passes, then all inheritance passes,
then all property passes, stopping at the first failure. -/
def Registry.registerAll (r : Registry) (modules : List Registration) :
    Registry × Option RegistryError :=
  let actions := modules.flatMap (·.enums) ++ modules.flatMap (·.types) ++
    modules.flatMap (·.inheritance) ++ modules.flatMap (·.properties)
  r.applyAll actions

end TypeReflection
