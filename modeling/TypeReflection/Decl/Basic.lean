/-!
# Declarations of a header

What the parser finds in one header: reflected records (classes and structs) with their
properties, methods, decorators and base classes, and reflected enums with their values.
Everything keeps the order of the header. Lookups by name (`DecoratorList.find?`,
`RecordDecl.findProperty?`, `FileDecls.findRecord?`, `EnumDecl.valueOf?`) answer the first
match.
-/

set_option autoImplicit false

namespace TypeReflection

/-- A decorator: a name with the values written in parentheses after it, if any. -/
structure Decorator where
  name : String
  values : List String
  deriving DecidableEq, Repr, Inhabited

/-- The decorators of one declaration, in the order written. -/
structure DecoratorList where
  items : List Decorator
  deriving DecidableEq, Repr, Inhabited

namespace DecoratorList

/-- No decorators. -/
def empty : DecoratorList := ⟨[]⟩

/-- Adds a decorator at the end. -/
def push (ds : DecoratorList) (d : Decorator) : DecoratorList := ⟨ds.items ++ [d]⟩

/-- The first decorator called `name`. -/
def find? (ds : DecoratorList) (name : String) : Option Decorator :=
  ds.items.find? (·.name == name)

/-- Whether a decorator called `name` is present. -/
def has (ds : DecoratorList) (name : String) : Bool := (ds.find? name).isSome

/-- The values of the first decorator called `name`, or none at all. -/
def valuesOf (ds : DecoratorList) (name : String) : List String :=
  match ds.find? name with
  | some d => d.values
  | none => []

/-- The number of decorators. -/
def size (ds : DecoratorList) : Nat := ds.items.length

/-- Whether there are no decorators. -/
def isEmpty (ds : DecoratorList) : Bool := ds.items.isEmpty

/-- The names of all decorators, in order. -/
def names (ds : DecoratorList) : List String := ds.items.map (·.name)

end DecoratorList

/-- A reflected data member: its type text, its name, its decorators and the line of its
name. -/
structure PropertyDecl where
  type : String
  name : String
  decorators : DecoratorList
  line : Nat
  deriving DecidableEq, Repr, Inhabited

/-- A reflected member function: its return type text, name, decorators and the line of its
name. -/
structure MethodDecl where
  returnType : String
  name : String
  decorators : DecoratorList
  line : Nat
  deriving DecidableEq, Repr, Inhabited

/-- Whether a record was declared a class or a struct. -/
inductive RecordKind where
  | cls
  | struct
  deriving DecidableEq, Repr, Inhabited

/-- The keyword that declares a record of this kind. -/
def RecordKind.keyword : RecordKind → String
  | .cls => "class"
  | .struct => "struct"

/-- A reflected class or struct. `bodyLine` is the line of its `GENERATED_BODY` anchor, the
last one if there are several. -/
structure RecordDecl where
  kind : RecordKind
  name : String
  path : String
  properties : List PropertyDecl
  methods : List MethodDecl
  decorators : DecoratorList
  parents : List String
  bodyLine : Option Nat
  deriving DecidableEq, Repr, Inhabited

/-- The first property called `name`. -/
def RecordDecl.findProperty? (r : RecordDecl) (name : String) : Option PropertyDecl :=
  r.properties.find? (·.name == name)

/-- One named value of an enum. -/
structure EnumEntry where
  name : String
  value : Int
  deriving DecidableEq, Repr, Inhabited

/-- A reflected enum; `isScoped` tells an `enum class` or `enum struct`. -/
structure EnumDecl where
  name : String
  path : String
  values : List EnumEntry
  isScoped : Bool
  deriving DecidableEq, Repr, Inhabited

/-- The value of the first entry called `name`. -/
def EnumDecl.valueOf? (e : EnumDecl) (name : String) : Option Int :=
  (e.values.find? (·.name == name)).map (·.value)

/-- Everything reflected in one header. -/
structure FileDecls where
  path : String
  records : List RecordDecl
  enums : List EnumDecl
  deriving DecidableEq, Repr, Inhabited

namespace FileDecls

/-- Whether the header reflects nothing. -/
def isEmpty (d : FileDecls) : Bool := d.records.isEmpty && d.enums.isEmpty

/-- The first record called `name`. -/
def findRecord? (d : FileDecls) (name : String) : Option RecordDecl :=
  d.records.find? (·.name == name)

/-- The first enum called `name`. -/
def findEnum? (d : FileDecls) (name : String) : Option EnumDecl :=
  d.enums.find? (·.name == name)

end FileDecls

end TypeReflection
