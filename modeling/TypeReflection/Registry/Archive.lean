import TypeReflection.Registry.Basic

/-!
# Serializing objects

An archive receives a stream of events: the start of a map, a key, a value, the end of a map.
Serializing an object as a type runs the serializers of the type's parents first, each with its
own ancestors first and in the order of the edges, and then the type's own serializer; the
first error stops everything, and what was written before it stays written. So an ancestor
reachable along several paths is written once for each path.

A serializer is a function of the registry, the type and the object that writes events and may
fail (`SerializerFn`). An archive only receives events, so what a serializer writes does not
depend on what is already there, and a serializer is described by the events it writes and its
error. The serializer of own properties writes one map of the type's own properties in
registration order, skipping those decorated `DontSerialize`; a value of an enum is written as
the text `Enum::Name` of its registered enum. Serializers supplied at registration are known by
a tag, and serializing is given what each tag writes.
-/

set_option autoImplicit false

namespace TypeReflection

/-- What an archive receives. -/
inductive ArchiveEvent where
  | beginMap
  | endMap
  | key (k : String)
  | value (v : Value)
  deriving BEq, Repr

/-- The keys written, in order. -/
def ArchiveEvent.keys (events : List ArchiveEvent) : List String :=
  events.filterMap fun
    | .key k => some k
    | _ => none

/-- The value written right after the first key `k` that is directly followed by a value. -/
def ArchiveEvent.valueOf? (events : List ArchiveEvent) (k : String) : Option Value :=
  match events with
  | .key k' :: .value v :: rest => if k' == k then some v else valueOf? (.value v :: rest) k
  | _ :: rest => valueOf? rest k
  | [] => none

/-- What a writer leaves: the events it wrote, and the error that stopped it, if any. -/
abbrev ArchiveEvent.Outcome := List ArchiveEvent × Option RegistryError

/-- A writer of archive events that keeps what it wrote when it fails. -/
abbrev ArchiveWriter := ExceptT RegistryError (StateM (Array ArchiveEvent))

/-- Writes one event. -/
def ArchiveWriter.emit (e : ArchiveEvent) : ArchiveWriter Unit := modify (·.push e)

/-- What a writer leaves when it writes to an empty archive. -/
def ArchiveWriter.outcome (w : ArchiveWriter Unit) : ArchiveEvent.Outcome :=
  let (result, events) := w.run.run #[]
  (events.toList, match result with
    | .ok _ => none
    | .error e => some e)

/-- Writes the events of an outcome, then stops with its error, if any. -/
def ArchiveWriter.write (out : ArchiveEvent.Outcome) : ArchiveWriter Unit := do
  modify (· ++ out.1.toArray)
  match out.2 with
  | some e => throw e
  | none => pure ()

/-- A serializer: for the registry, the type and the object, the events it writes to the archive
and the error it stops with, if any. -/
abbrev SerializerFn := Registry → TypeEntry → Object → ArchiveEvent.Outcome

namespace Registry

/-- The decorator that keeps a property out of serialization. -/
def dontSerialize : String := "DontSerialize"

/-- How a property's value is written: an enum value as the text `Enum::Name`. -/
def archivedValue (r : Registry) (v : Value) : Except RegistryError Value :=
  match v with
  | .enum name value =>
    match r.findEnum? name with
    | some e => .ok (.str (name ++ "::" ++ e.valueToString value))
    | none => .error (.unknownEnum name)
  | other => .ok other

/-- Writes the own properties of `t` of an object as one map. -/
def writeOwnProperties (r : Registry) (t : TypeEntry) (o : Object) : ArchiveWriter Unit := do
  ArchiveWriter.emit .beginMap
  for p in t.properties do
    if !p.decorators.has dontSerialize then
      let v ← liftExcept (p.getValue o)
      let v ← liftExcept (r.archivedValue v)
      ArchiveWriter.emit (.key p.name)
      ArchiveWriter.emit (.value v)
  ArchiveWriter.emit .endMap
where
  liftExcept {α : Type} (x : Except RegistryError α) : ArchiveWriter α :=
    match x with
    | .ok a => pure a
    | .error e => throw e

/-- The serializer of own properties. -/
def ownPropertiesSerializer : SerializerFn := fun r t o => (r.writeOwnProperties t o).outcome

end Registry

/-- The serializer a type's label stands for, given what each supplied serializer writes. -/
def Serializer.run (supplied : Nat → SerializerFn) : Serializer → SerializerFn
  | .ownProperties => Registry.ownPropertiesSerializer
  | .supplied tag => supplied tag

namespace Registry

/-- Serializes an object as type `t`: parents first, then `t`'s own serializer. `fuel` bounds
the depth; a depth of the number of types always suffices. -/
def serializeAs (r : Registry) (supplied : Nat → SerializerFn) (o : Object) :
    Nat → TypeEntry → ArchiveWriter Unit
  | 0, _ => pure ()
  | fuel + 1, t => do
    for parent in r.parentsOf t do
      serializeAs r supplied o fuel parent
    match t.serializer with
    | some s => ArchiveWriter.write (s.run supplied r t o)
    | none => pure ()

/-- Serializes an object as the type called `type`, with `supplied` giving what each supplied
serializer writes. Gives the events written and the error that stopped the writing, if any. -/
def serialize (r : Registry) (supplied : Nat → SerializerFn) (type : String) (o : Object) :
    ArchiveEvent.Outcome :=
  ArchiveWriter.outcome do
    match r.find? type with
    | none => throw (.unknownType type)
    | some t => r.serializeAs supplied o (r.size + 1) t

end Registry

end TypeReflection
