import TypeReflection.EnumValue

/-!
# Registered enums

A registered enum keeps its entries in the order in which each value was first given. Adding
a name with a value that is already present renames that entry; adding a name without a value
gives it the value after the last one added (zero for the first). Looking a value up gives the
name of its entry, or `Unknown`.
-/

set_option autoImplicit false

namespace TypeReflection

/-- A registered enum: its name, its entries (value and name) and the last value added. -/
structure EnumType where
  name : String
  entries : List (Int × String)
  last : Option Int
  deriving DecidableEq, Repr

namespace EnumType

/-- An enum with no entries. -/
def empty (name : String) : EnumType := ⟨name, [], none⟩

/-- The name given to a value no entry has. -/
def unknownName : String := "Unknown"

/-- Adds `name` with the given value, or with the value after the last one added. -/
def addValue (e : EnumType) (name : String) (value? : Option Int) : EnumType :=
  let value := match value? with
    | some v => v
    | none => match e.last with
      | none => 0
      | some last => nextEnumValue last
  let entries :=
    if e.entries.any (·.1 == value) then
      e.entries.map fun (v, n) => if v == value then (v, name) else (v, n)
    else e.entries ++ [(value, name)]
  { e with entries, last := some value }

/-- The name of the entry with `value`, or `Unknown`. -/
def valueToString (e : EnumType) (value : Int) : String :=
  match e.entries.find? (·.1 == value) with
  | some (_, n) => n
  | none => unknownName

/-- The value of the first entry called `name`. -/
def stringToValue? (e : EnumType) (name : String) : Option Int :=
  (e.entries.find? (·.2 == name)).map (·.1)

/-- Whether some entry has `value`. -/
def hasValue (e : EnumType) (value : Int) : Bool := e.entries.any (·.1 == value)

/-- Whether some entry is called `name`. -/
def hasValueNamed (e : EnumType) (name : String) : Bool := e.entries.any (·.2 == name)

/-- The number of entries. -/
def size (e : EnumType) : Nat := e.entries.length

end EnumType

end TypeReflection
