import TypeReflection.Registry.Property
import TypeReflection.Registry.Enum

/-!
# The type registry

The registry maps names to registered types and enums. Each type gets a fresh id, larger than
every id given before; registering a name again replaces the old type, which disappears with
every inheritance edge that touched it. Types are kept in order of their ids, enums in order
of registration.

Inheritance edges form a directed acyclic graph: an edge is refused when the parent already
derives from the child. Each type remembers its ancestors and descendants, so that asking
whether one type derives from another is a look-up. Adding an edge grows these sets; removing
a type rebuilds them all from the edges.

A property is looked up in the type's own properties first and then, depth first, in its
parents in the order their edges were added.
-/

set_option autoImplicit false

namespace TypeReflection

/-- How a registered type writes an object to an archive: with the serializer of own properties,
or with one supplied at registration, known here by a tag. What a supplied serializer writes is
given to `Registry.serialize`. -/
inductive Serializer where
  /-- Writes a map of the type's own properties, except those decorated `DontSerialize`. -/
  | ownProperties
  /-- A serializer supplied at registration. -/
  | supplied (tag : Nat)
  deriving DecidableEq, Repr

/-- A registered type. `parents` and `children` are the direct edges, in the order added;
`ancestors` and `descendants` are the remembered sets of ids reachable along them. -/
structure TypeEntry where
  name : String
  id : Nat
  native : NativeClass
  parents : List Nat
  children : List Nat
  ancestors : List Nat
  descendants : List Nat
  properties : List Property
  decorators : DecoratorList
  serializer : Option Serializer
  deriving Repr, Inhabited

namespace TypeEntry

/-- The first own property called `name`. -/
def property? (t : TypeEntry) (name : String) : Option Property :=
  t.properties.find? (·.name == name)

end TypeEntry

/-- A registry: its types in order of id, its enums, and the next id to give. -/
structure Registry where
  types : List TypeEntry
  enums : List EnumType
  nextId : Nat
  deriving Repr, Inhabited

/-- The name of the root type every registry starts with. -/
def objectBaseName : String := "ObjectBase"

namespace Registry

/-- The type called `name`. -/
def find? (r : Registry) (name : String) : Option TypeEntry := r.types.find? (·.name == name)

/-- The type with id `id`. -/
def byId? (r : Registry) (id : Nat) : Option TypeEntry := r.types.find? (·.id == id)

/-- The type called `name`, or the error that there is none. -/
def require (r : Registry) (name : String) : Except RegistryError TypeEntry :=
  match r.find? name with
  | some t => .ok t
  | none => .error (.unknownType name)

/-- The number of registered types. -/
def size (r : Registry) : Nat := r.types.length

/-- Applies `f` to the type with id `id`. -/
def modifyType (r : Registry) (id : Nat) (f : TypeEntry → TypeEntry) : Registry :=
  { r with types := r.types.map fun t => if t.id == id then f t else t }

/-- The ids reachable from `start` along one or more edges given by `next`, in order of
discovery. A path never needs more steps than there are types. -/
def reachable (r : Registry) (next : TypeEntry → List Nat) (start : Nat) : List Nat :=
  let step (ids : List Nat) : List Nat :=
    ids.flatMap fun id => match r.byId? id with
      | some t => next t
      | none => []
  let rec grow (fuel : Nat) (seen frontier : List Nat) : List Nat :=
    match fuel with
    | 0 => seen
    | fuel + 1 =>
      let fresh := (step frontier).eraseDups.filter (!seen.contains ·)
      if fresh.isEmpty then seen else grow fuel (seen ++ fresh) fresh
  let first := (step [start]).eraseDups
  (grow r.types.length first first).filter (· != start)

/-- Recomputes every type's ancestors and descendants from the edges. -/
def rebuildClosures (r : Registry) : Registry :=
  { r with types := r.types.map fun t =>
      { t with ancestors := r.reachable (·.parents) t.id, descendants := r.reachable (·.children) t.id } }

/-- Removes the type with id `id` and every edge that touches it. -/
def removeType (r : Registry) (id : Nat) : Registry :=
  let types := (r.types.filter (·.id != id)).map fun t =>
    { t with parents := t.parents.filter (· != id), children := t.children.filter (· != id) }
  rebuildClosures { r with types }

/-- Registers a type under `name`, replacing any type of that name, and gives its id. -/
def addType (r : Registry) (name : String) (native : NativeClass)
    (serializer : Option Serializer) (decorators : DecoratorList) : Registry × Nat :=
  let r := match r.find? name with
    | some old => r.removeType old.id
    | none => r
  let id := r.nextId
  let entry : TypeEntry := ⟨name, id, native, [], [], [], [], [], decorators, serializer⟩
  ({ r with types := r.types ++ [entry], nextId := id + 1 }, id)

/-- A fresh registry: only the root type, with id 1. -/
def fresh : Registry :=
  (addType ⟨[], [], 1⟩ objectBaseName NativeClass.objectBase none .empty).1

/-- Registers an enum, replacing in place one of the same name. -/
def putEnum (r : Registry) (e : EnumType) : Registry :=
  if r.enums.any (·.name == e.name) then
    { r with enums := r.enums.map fun old => if old.name == e.name then e else old }
  else { r with enums := r.enums ++ [e] }

/-- The enum called `name`. -/
def findEnum? (r : Registry) (name : String) : Option EnumType := r.enums.find? (·.name == name)

/-- Adds the ids `more` to a set of ids. -/
def joinIds (ids more : List Nat) : List Nat := ids ++ (more.eraseDups.filter (!ids.contains ·))

/-- Makes `parent` a direct parent of `child`. Fails when either is unknown (the child is
checked first) or when the edge would close a cycle; an edge already present changes
nothing. -/
def addParent (r : Registry) (child parent : String) : Except RegistryError Registry := do
  let c ← r.require child
  let p ← r.require parent
  if c.id == p.id || (r.reachable (·.parents) p.id).contains c.id then
    throw (.inheritanceCycle child parent)
  if c.parents.contains p.id then return r
  let r := (r.modifyType c.id fun t => { t with parents := t.parents ++ [p.id] }).modifyType p.id
    fun t => { t with children := t.children ++ [c.id] }
  let upward := p.id :: r.reachable (·.parents) p.id
  let downward := c.id :: r.reachable (·.children) c.id
  return { r with types := r.types.map fun t =>
    let t := if downward.contains t.id then { t with ancestors := joinIds t.ancestors upward } else t
    if upward.contains t.id then { t with descendants := joinIds t.descendants downward } else t }

/-- Whether the type called `child` derives from the type called `parent`. -/
def hasParentNamed (r : Registry) (child parent : String) : Bool :=
  match r.find? child, r.find? parent with
  | some c, some p => c.ancestors.contains p.id
  | _, _ => false

/-- Whether the type called `child` derives from the type called `parent`, asked of the
parent. -/
def hasChildNamed (r : Registry) (parent child : String) : Bool :=
  match r.find? parent, r.find? child with
  | some p, some c => p.descendants.contains c.id
  | _, _ => false

/-- The direct parents of a type, in the order their edges were added. -/
def parentsOf (r : Registry) (t : TypeEntry) : List TypeEntry := t.parents.filterMap r.byId?

/-- Registers a property on the type called `owner`, whose native class must be the
accessor's. -/
def addProperty (r : Registry) (owner : String) (p : Property) : Except RegistryError Registry := do
  let t ← r.require owner
  if !t.native.same p.accessor.owner then
    throw (.objectTypeMismatch owner p.accessor.owner.fullName)
  return r.modifyType t.id fun t => { t with properties := t.properties ++ [p] }

/-- Looks a property up in `t` and then, depth first, in its parents; `fuel` bounds the depth,
and a depth of the number of types always suffices. -/
def findPropertyIn (r : Registry) (name : String) : Nat → TypeEntry → Option Property
  | 0, _ => none
  | fuel + 1, t =>
    match t.property? name with
    | some p => some p
    | none => (r.parentsOf t).findSome? (findPropertyIn r name fuel)

/-- The property `name` of type `t` or of its ancestors. -/
def findProperty? (r : Registry) (t : TypeEntry) (name : String) : Option Property :=
  r.findPropertyIn name (r.size + 1) t

/-- The property `name` of the type called `type` or of its ancestors. -/
def findPropertyNamed (r : Registry) (type name : String) : Except RegistryError Property := do
  let t ← r.require type
  match r.findProperty? t name with
  | some p => pure p
  | none => throw (.unknownProperty type name)

/-- A new object of the type called `name`. -/
def construct (r : Registry) (name : String) : Except RegistryError Object :=
  (r.require name).map (·.native.instantiate)

end Registry

end TypeReflection
