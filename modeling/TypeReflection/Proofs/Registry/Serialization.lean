import Mathlib.Data.Set.Card
import TypeReflection.Registry.Archive
import TypeReflection.Proofs.Registry.PropertyLookup

/-!
# Serializing an object: parents first, one map per serializer

A writer of archive events is described by its *outcome* (`ArchiveWriter.Writes`): the events it
appends and the error that stops it, if any. Outcomes compose (`ArchiveEvent.andThen`) into a
monoid, and a list of them run in turn (`ArchiveEvent.sequence`) ends with the first that fails
(`sequence_eq_error_iff`).

Serializing as a type runs, for each parent in the order the edges were added, everything that
serializing as the parent runs, and then the type's own serializer. `serialOrderIn` unrolls this
into the list of types whose serializers run (`writes_serializeAs`). As for the property lookup,
the number of ancestors is the measure that makes the registry's depth bound enough: the order
satisfies its recursive equation (`serialOrder_unfold`) and no deeper bound changes it.

The own-properties serializer writes one map of the type's properties not decorated
`DontSerialize` (`ownPropertiesEvents_of_written`). The serialization order visits an ancestor
once for every path of parent edges to it (`count_serialOrderIn`), and those paths are counted
through an enumeration that holds each of them once (`ncard_parentPath`).
-/

set_option autoImplicit false

namespace TypeReflection

/-! ## Outcomes of writers -/

namespace ArchiveEvent

/-- One outcome after another: both writers' events if the first ends well, the first's
otherwise. -/
def andThen : Outcome → Outcome → Outcome
  | (es, none), (es', err) => (es ++ es', err)
  | failed, _ => failed

/-- Outcomes one after another, up to and including the first that fails. -/
def sequence (outs : List Outcome) : Outcome := outs.foldr andThen ([], none)

@[simp] theorem nil_andThen (out : Outcome) : andThen ([], none) out = out := by
  obtain ⟨es, err⟩ := out
  rfl

@[simp] theorem andThen_nil (out : Outcome) : andThen out ([], none) = out := by
  obtain ⟨es, _ | e⟩ := out <;> simp [andThen]

theorem andThen_assoc (a b c : Outcome) : andThen (andThen a b) c = andThen a (andThen b c) := by
  obtain ⟨es, _ | e⟩ := a
  · obtain ⟨es', _ | e'⟩ := b <;> simp [andThen]
  · rfl

@[simp] theorem sequence_nil : sequence [] = ([], none) := rfl

@[simp] theorem sequence_cons (out : Outcome) (outs : List Outcome) :
    sequence (out :: outs) = andThen out (sequence outs) := rfl

theorem sequence_append (outs outs' : List Outcome) :
    sequence (outs ++ outs') = andThen (sequence outs) (sequence outs') := by
  induction outs with
  | nil => simp
  | cons out outs ih => simp [ih, andThen_assoc]

theorem sequence_flatMap {α : Type} (l : List α) (f : α → List Outcome) :
    sequence (l.flatMap f) = sequence (l.map fun x => sequence (f x)) := by
  induction l with
  | nil => rfl
  | cons x l ih => simp [sequence_append, ih]

/-- Outcomes in sequence end well exactly when each does; then all their events are written. -/
theorem sequence_of_forall_none {outs : List Outcome} (h : ∀ out ∈ outs, out.2 = none) :
    sequence outs = (outs.flatMap (·.1), none) := by
  induction outs with
  | nil => rfl
  | cons out outs ih =>
    obtain ⟨es, err⟩ := out
    have herr : err = none := h _ List.mem_cons_self
    subst herr
    simp [ih fun out hout => h out (List.mem_cons_of_mem _ hout), andThen]

/-- Outcomes in sequence fail with the error of the first that fails, having written the events
of those before it and its own. -/
theorem sequence_eq_error_iff {outs : List Outcome} {e : RegistryError} :
    (sequence outs).2 = some e ↔ ∃ pre out post, outs = pre ++ out :: post ∧
      (∀ x ∈ pre, x.2 = none) ∧ out.2 = some e ∧
        (sequence outs).1 = pre.flatMap (·.1) ++ out.1 := by
  induction outs with
  | nil => simp
  | cons out outs ih =>
    obtain ⟨es, _ | e'⟩ := out
    · -- a first outcome that ends well is written before the rest
      simp only [sequence_cons, andThen]
      constructor
      · intro h
        obtain ⟨pre, out, post, rfl, hpre, hout, hes⟩ := ih.1 h
        refine ⟨(es, none) :: pre, out, post, rfl, ?_, hout, ?_⟩
        · simpa using hpre
        · simp [hes]
      · rintro ⟨_ | ⟨x, pre⟩, out, post, heq, hpre, hout, hes⟩
        · simp only [List.nil_append, List.cons.injEq] at heq
          rw [← heq.1] at hout
          cases hout
        · simp only [List.cons_append, List.cons.injEq] at heq
          obtain ⟨rfl, rfl⟩ := heq
          exact (ih.2 ⟨pre, out, post, rfl, fun y hy => hpre y (List.mem_cons_of_mem _ hy), hout,
            by simpa using hes⟩)
    · -- a first outcome that fails ends the sequence
      simp only [sequence_cons, andThen, Option.some.injEq]
      constructor
      · rintro rfl
        exact ⟨[], (es, some e'), outs, rfl, by simp, rfl, by simp⟩
      · rintro ⟨_ | ⟨x, pre⟩, out, post, heq, hpre, hout, -⟩
        · simp only [List.nil_append, List.cons.injEq] at heq
          rw [← heq.1] at hout
          simpa using hout
        · simp only [List.cons_append, List.cons.injEq] at heq
          have := hpre x List.mem_cons_self
          rw [← heq.1] at this
          cases this

theorem sequence_eq_none_iff {outs : List Outcome} :
    (sequence outs).2 = none ↔ ∀ out ∈ outs, out.2 = none := by
  induction outs with
  | nil => simp
  | cons out outs ih =>
    obtain ⟨es, _ | e⟩ := out
    · simp [andThen, ih]
    · simp [andThen]

end ArchiveEvent

namespace ArchiveWriter

open ArchiveEvent

/-- Run after the events `s`, the writer appends the events of `out` and ends with `a`, or with
the error of `out`. -/
def Writes {α : Type} (w : ArchiveWriter α) (a : α) (out : Outcome) : Prop :=
  ∀ s, w.run.run s = ((match out.2 with | none => .ok a | some e => .error e), s ++ out.1.toArray)

theorem writes_pure {α : Type} (a : α) : Writes (pure a) a ([], none) := by
  intro s
  simp
  rfl

theorem writes_emit (e : ArchiveEvent) : Writes (emit e) () ([e], none) := by
  intro s
  rfl

theorem writes_write (out : Outcome) : Writes (write out) () out := by
  intro s
  obtain ⟨es, _ | e⟩ := out <;> rfl

/-- A writer that writes `out` from any events leaves `out` on an empty archive. -/
theorem Writes.outcome_eq {w : ArchiveWriter Unit} {out : Outcome} (h : Writes w () out) :
    w.outcome = out := by
  unfold outcome
  rw [h #[]]
  obtain ⟨es, _ | e⟩ := out <;> simp

theorem Writes.bind {α β : Type} {w : ArchiveWriter α} {k : α → ArchiveWriter β} {a : α}
    {b : β} {out out' : Outcome} (h : Writes w a out) (h' : Writes (k a) b out') :
    Writes (w >>= k) b (andThen out out') := by
  intro s
  rw [ExceptT.run_bind, StateT.run_bind, h s]
  obtain ⟨es, _ | e⟩ := out
  · change StateT.run (ExceptT.run (k a)) (s ++ es.toArray) = _
    rw [h']
    obtain ⟨es', err⟩ := out'
    simp [andThen, Array.append_assoc]
  · rfl

theorem Writes.of_eq {α : Type} {w : ArchiveWriter α} {a : α} {out out' : Outcome}
    (h : Writes w a out) (he : out = out') : Writes w a out' :=
  he ▸ h

theorem Writes.bind_of_error {α β : Type} {w : ArchiveWriter α} {a : α} {es : List ArchiveEvent}
    {e : RegistryError} (h : Writes w a (es, some e)) (k : α → ArchiveWriter β) (b : β) :
    Writes (w >>= k) b (es, some e) := by
  intro s
  rw [ExceptT.run_bind, StateT.run_bind, h s]
  rfl

/-- A loop over a list whose body writes `out x` for each `x` writes their outcomes in
sequence. -/
theorem Writes.forIn {α : Type} {l : List α}
    {body : α → PUnit → ArchiveWriter (ForInStep PUnit)} {g : α → Outcome}
    (h : ∀ x ∈ l, Writes (body x PUnit.unit) (.yield PUnit.unit) (g x)) :
    Writes (forIn l PUnit.unit body) PUnit.unit (sequence (l.map g)) := by
  induction l with
  | nil => exact writes_pure _
  | cons x l ih =>
    rw [List.forIn_cons]
    exact (h x List.mem_cons_self).bind (ih fun y hy => h y (List.mem_cons_of_mem _ hy))

end ArchiveWriter

/-- The properties the own-properties serializer writes: those not decorated `DontSerialize`,
in registration order. -/
def TypeEntry.serialized (t : TypeEntry) : List Property :=
  t.properties.filter fun p => !p.decorators.has Registry.dontSerialize

namespace Registry

open ArchiveEvent ArchiveWriter


/-- The value written for a property of an object: its value, an enum value as the text
`Enum::Name`. -/
def writtenValue (r : Registry) (p : Property) (o : Object) : Except RegistryError Value :=
  p.getValue o >>= r.archivedValue

/-- What the own-properties serializer writes for one property of an object. -/
def propertyEvents (r : Registry) (o : Object) (p : Property) : Outcome :=
  if p.decorators.has dontSerialize then ([], none) else
    match r.writtenValue p o with
    | .ok v => ([.key p.name, .value v], none)
    | .error e => ([], some e)

/-- What the own-properties serializer writes for `t`: a map of its properties, left open when
a value cannot be written. -/
def ownPropertiesEvents (r : Registry) (t : TypeEntry) (o : Object) : Outcome :=
  andThen ([.beginMap], none)
    (andThen (sequence (t.properties.map (r.propertyEvents o))) ([.endMap], none))

theorem writes_liftExcept_ok {α : Type} (a : α) :
    Writes (writeOwnProperties.liftExcept (.ok a)) a ([], none) :=
  writes_pure a

theorem writes_liftExcept_error {α : Type} (e : RegistryError) (a : α) :
    Writes (writeOwnProperties.liftExcept (.error e)) a ([], some e) := fun _ => rfl

theorem writes_writeOwnProperties (r : Registry) (t : TypeEntry) (o : Object) :
    Writes (r.writeOwnProperties t o) () (r.ownPropertiesEvents t o) := by
  unfold writeOwnProperties ownPropertiesEvents
  refine (writes_emit _).bind ((Writes.forIn fun p _ => ?_).bind (writes_emit _))
  unfold propertyEvents writtenValue
  by_cases hs : p.decorators.has dontSerialize
  · simp only [hs, Bool.not_true, Bool.false_eq_true, if_false, if_true]
    exact writes_pure _
  · simp only [hs, Bool.not_false, if_true, Bool.false_eq_true, if_false]
    cases hg : p.getValue o with
    | error e => exact Writes.bind_of_error (writes_liftExcept_error e (default : Value)) _ _
    | ok v =>
      refine (writes_liftExcept_ok v).bind ?_
      change Writes (writeOwnProperties.liftExcept (r.archivedValue v) >>= _) _
        (match r.archivedValue v with
          | .ok v => ([.key p.name, .value v], none)
          | .error e => ([], some e))
      cases r.archivedValue v with
      | error e => exact Writes.bind_of_error (writes_liftExcept_error e (default : Value)) _ _
      | ok w =>
        refine ((writes_liftExcept_ok w).bind ((writes_emit _).bind ((writes_emit _).bind
          (writes_pure (ForInStep.yield PUnit.unit))))).of_eq ?_
        rfl

/-- The serializer of own properties writes the map of `ownPropertiesEvents`. -/
theorem ownPropertiesSerializer_eq (r : Registry) (t : TypeEntry) (o : Object) :
    ownPropertiesSerializer r t o = r.ownPropertiesEvents t o :=
  (writes_writeOwnProperties r t o).outcome_eq

/-- Over properties whose values all write, the serializer writes the name and value of each one
not decorated `DontSerialize`, in order. -/
theorem sequence_propertyEvents {r : Registry} {o : Object} {w : Property → Value}
    (ps : List Property)
    (hw : ∀ p ∈ ps.filter (fun p => !p.decorators.has dontSerialize),
      r.writtenValue p o = .ok (w p)) :
    sequence (ps.map (r.propertyEvents o)) =
      ((ps.filter fun p => !p.decorators.has dontSerialize).flatMap
        (fun p => [.key p.name, .value (w p)]), none) := by
  induction ps with
  | nil => rfl
  | cons p ps ih =>
    have hrest := ih fun q hq => hw q (List.mem_filter.2
      ⟨List.mem_cons_of_mem _ (List.mem_filter.1 hq).1, (List.mem_filter.1 hq).2⟩)
    by_cases hs : p.decorators.has dontSerialize
    · simp [propertyEvents, hs, hrest]
    · have hp : r.writtenValue p o = .ok (w p) :=
        hw p (List.mem_filter.2 ⟨List.mem_cons_self, by simp [hs]⟩)
      simp [propertyEvents, hs, hp, hrest, andThen]

/-- When every value writes, the own-properties serializer writes one map: the name and written
value of each serialized property, in registration order. -/
theorem ownPropertiesEvents_of_written {r : Registry} {t : TypeEntry} {o : Object}
    {w : Property → Value} (hw : ∀ p ∈ t.serialized, r.writtenValue p o = .ok (w p)) :
    r.ownPropertiesEvents t o =
      (.beginMap :: t.serialized.flatMap (fun p => [.key p.name, .value (w p)]) ++ [.endMap],
        none) := by
  unfold ownPropertiesEvents
  rw [sequence_propertyEvents _ hw]
  simp [andThen, TypeEntry.serialized]

theorem propertyEvents_snd_eq_none_iff {r : Registry} {o : Object} {p : Property} :
    (r.propertyEvents o p).2 = none ↔
      (p.decorators.has dontSerialize = false → ∃ v, r.writtenValue p o = .ok v) := by
  unfold propertyEvents
  cases hs : p.decorators.has dontSerialize
  · cases r.writtenValue p o <;> simp
  · simp

/-- The own-properties serializer ends well exactly when the value of every serialized property
writes. -/
theorem ownPropertiesEvents_snd_eq_none_iff {r : Registry} {t : TypeEntry} {o : Object} :
    (r.ownPropertiesEvents t o).2 = none ↔
      ∀ p ∈ t.serialized, ∃ v, r.writtenValue p o = .ok v := by
  have hsnd : (r.ownPropertiesEvents t o).2 =
      (sequence (t.properties.map (r.propertyEvents o))).2 := by
    unfold ownPropertiesEvents
    generalize sequence _ = out
    obtain ⟨es, _ | e⟩ := out <;> rfl
  rw [hsnd, sequence_eq_none_iff]
  simp [TypeEntry.serialized, propertyEvents_snd_eq_none_iff]

/-- The types whose serializers run when an object is serialized as `t`, `depth` levels deep:
those for each parent, in the order the edges were added, then `t` if it has a serializer. -/
def serialOrderIn (r : Registry) : Nat → TypeEntry → List TypeEntry
  | 0, _ => []
  | depth + 1, t =>
    (r.parentsOf t).flatMap (r.serialOrderIn depth) ++ (if t.serializer.isSome then [t] else [])

/-- The serialization order of `t`, as deep as serialization goes. -/
def serialOrder (r : Registry) (t : TypeEntry) : List TypeEntry :=
  r.serialOrderIn (r.size + 1) t

/-- What the serializer of `u` writes for an object, `supplied` giving what each supplied
serializer writes; a type without a serializer writes nothing. -/
def serializerOutcome (r : Registry) (supplied : Nat → SerializerFn) (o : Object)
    (u : TypeEntry) : Outcome :=
  match u.serializer with
  | some s => s.run supplied r u o
  | none => ([], none)

theorem serializerOutcome_of_ownProperties {r : Registry} {supplied : Nat → SerializerFn}
    {o : Object} {u : TypeEntry} (h : u.serializer = some .ownProperties) :
    r.serializerOutcome supplied o u = r.ownPropertiesEvents u o := by
  simp [serializerOutcome, h, Serializer.run, ownPropertiesSerializer_eq]

/-- Serializing as `t` runs the serializer of each type of the serialization order in turn, up to
the first that fails. -/
theorem writes_serializeAs (r : Registry) (supplied : Nat → SerializerFn) (o : Object) : ∀ d t,
    Writes (r.serializeAs supplied o d t) ()
      (sequence ((r.serialOrderIn d t).map (r.serializerOutcome supplied o))) := by
  intro d
  induction d with
  | zero => intro t; exact writes_pure _
  | succ d ih =>
    intro t
    rw [serializeAs]
    -- one round of the loop over the parents runs the serialization of that parent
    have hstep : ∀ p, Writes (r.serializeAs supplied o d p >>= fun _ => pure (.yield PUnit.unit))
        (ForInStep.yield PUnit.unit) (sequence ((r.serialOrderIn d p).map
          (r.serializerOutcome supplied o))) := fun p =>
      ((ih p).bind (writes_pure (ForInStep.yield PUnit.unit))).of_eq (andThen_nil _)
    cases hs : t.serializer with
    | none =>
      refine ((Writes.forIn fun p _ => hstep p).bind (writes_pure ())).of_eq ?_
      simp [serialOrderIn, hs, List.map_flatMap, sequence_flatMap]
    | some s =>
      refine ((Writes.forIn fun p _ => hstep p).bind (writes_write _)).of_eq ?_
      simp [serialOrderIn, hs, List.map_flatMap, sequence_flatMap, sequence_append,
        serializerOutcome]

/-- Serializing an object as a registered type writes the outcomes of the serializers of its
serialization order, in turn, up to the first that fails. -/
theorem serialize_eq_sequence {r : Registry} (supplied : Nat → SerializerFn) {name : String}
    {t : TypeEntry} (ht : r.find? name = some t) (o : Object) :
    r.serialize supplied name o =
      sequence ((r.serialOrder t).map (r.serializerOutcome supplied o)) := by
  unfold serialize serialOrder
  simp only [ht]
  exact (writes_serializeAs r supplied o (r.size + 1) t).outcome_eq

/-! ## The depth bound never cuts serialization short -/

section Ancestors

variable {r : Registry} (h : r.WellFormed)
include h

theorem serialOrderIn_stable : ∀ d e {t : TypeEntry}, t ∈ r.types →
    t.ancestors.toFinset.card < d → t.ancestors.toFinset.card < e →
      r.serialOrderIn d t = r.serialOrderIn e t :=
  eq_of_card_ancestors_lt h _ fun d e t hpar => by
    simp only [serialOrderIn]
    rw [List.flatMap_congr hpar]

/-- Serializing with any depth bound beyond the number of types runs the serialization
order. -/
theorem serialOrderIn_of_size_lt {t : TypeEntry} (ht : t ∈ r.types) {d : Nat} (hd : r.size < d) :
    r.serialOrderIn d t = r.serialOrder t := by
  have hlt := card_ancestors_lt_size h ht
  exact serialOrderIn_stable h d (r.size + 1) ht (by omega) (by omega)

/-- The serialization order satisfies its recursive equation: the order of each parent, then the
type itself if it has a serializer. -/
theorem serialOrder_unfold (t : TypeEntry) :
    r.serialOrder t =
      (r.parentsOf t).flatMap r.serialOrder ++ (if t.serializer.isSome then [t] else []) := by
  simp only [serialOrder, serialOrderIn]
  congr 1
  apply List.flatMap_congr
  intro p hp
  have hpm := ((mem_parentsOf h.ids_nodup).1 hp).1
  have hlt := card_ancestors_lt_size h hpm
  exact serialOrderIn_stable h _ _ hpm hlt (by omega)

end Ancestors

/-! ## Paths to an ancestor -/

/-- A path along parent edges from the type with id `a` to the one with id `b`: the ids it
visits, each type listing the next as a parent. -/
def ParentPath (r : Registry) (a b : Nat) (ps : List Nat) : Prop :=
  ps.head? = some a ∧ ps.getLast? = some b ∧ ps.IsChain (r.Edge TypeEntry.parents)

/-- The paths along parent edges from `t` that visit at most `depth` types. -/
def parentPathsIn (r : Registry) : Nat → TypeEntry → List (List Nat)
  | 0, _ => []
  | depth + 1, t =>
    [t.id] :: (r.parentsOf t).flatMap fun p => (r.parentPathsIn depth p).map (t.id :: ·)

theorem head?_of_mem_parentPathsIn {r : Registry} {d : Nat} {t : TypeEntry} {ps : List Nat}
    (hps : ps ∈ r.parentPathsIn d t) : ps.head? = some t.id := by
  cases d with
  | zero => cases hps
  | succ d =>
    simp only [parentPathsIn, List.mem_cons, List.mem_flatMap, List.mem_map] at hps
    rcases hps with rfl | ⟨p, -, qs, -, rfl⟩ <;> rfl

/-- The ids of the parents found for a type are among those it lists, in its order. -/
theorem ids_parentsOf_sublist (r : Registry) (t : TypeEntry) :
    List.Sublist ((r.parentsOf t).map (·.id)) t.parents := by
  unfold parentsOf
  induction t.parents with
  | nil => exact .slnil
  | cons i l ih =>
    rw [List.filterMap_cons]
    cases hi : r.byId? i with
    | none => exact ih.cons _
    | some u =>
      rw [List.map_cons, (byId?_eq_some hi).2]
      exact ih.cons_cons _

section Paths

variable {r : Registry} (h : r.WellFormed)
include h

theorem isChain_of_mem_parentPathsIn : ∀ d {t : TypeEntry} {ps : List Nat}, t ∈ r.types →
    ps ∈ r.parentPathsIn d t → ps.IsChain (r.Edge TypeEntry.parents) := by
  intro d
  induction d with
  | zero => intro t ps _ hps; cases hps
  | succ d ih =>
    intro t ps ht hps
    simp only [parentPathsIn, List.mem_cons, List.mem_flatMap, List.mem_map] at hps
    rcases hps with rfl | ⟨p, hp, qs, hqs, rfl⟩
    · exact List.isChain_singleton _
    · obtain ⟨hpm, hpt⟩ := (mem_parentsOf h.ids_nodup).1 hp
      obtain ⟨rest, rfl⟩ : ∃ rest, qs = p.id :: rest :=
        List.head?_eq_some_iff.1 (head?_of_mem_parentPathsIn hqs)
      exact List.isChain_cons_cons.2 ⟨⟨t, ht, rfl, hpt⟩, ih hpm hqs⟩

/-- Every path along parent edges from `t` is enumerated at any depth beyond its number of
ancestors: each step goes to a parent, which has fewer. -/
theorem mem_parentPathsIn_of_isChain : ∀ d {t : TypeEntry} {ps : List Nat}, t ∈ r.types →
    t.ancestors.toFinset.card < d → ps.head? = some t.id →
      ps.IsChain (r.Edge TypeEntry.parents) → ps ∈ r.parentPathsIn d t := by
  intro d
  induction d with
  | zero => intro t ps _ hd; omega
  | succ d ih =>
    intro t ps ht hd hhead hchain
    obtain ⟨qs, rfl⟩ := List.head?_eq_some_iff.1 hhead
    cases qs with
    | nil => exact List.mem_cons_self
    | cons b rest =>
      obtain ⟨⟨t', ht', hid, hb⟩, htail⟩ := List.isChain_cons_cons.1 hchain
      obtain rfl := h.eq_of_id_eq ht' ht hid
      obtain ⟨p, hpm, rfl⟩ := List.mem_map.1 (h.parents_live t' ht' b hb)
      have hp : p ∈ r.parentsOf t' := (mem_parentsOf h.ids_nodup).2 ⟨hpm, hb⟩
      have hfewer := Finset.card_lt_card (ancestors_ssubset_of_parent h ht' hp)
      have hrest : p.id :: rest ∈ r.parentPathsIn d p := ih hpm (by omega) rfl htail
      exact List.mem_cons_of_mem _
        (List.mem_flatMap.2 ⟨p, hp, List.mem_map.2 ⟨_, hrest, rfl⟩⟩)

/-- No path is enumerated twice: paths through different parents differ in their second id. -/
theorem nodup_parentPathsIn :
    ∀ d {t : TypeEntry}, t ∈ r.types → (r.parentPathsIn d t).Nodup := by
  intro d
  induction d with
  | zero => intro t _; exact List.nodup_nil
  | succ d ih =>
    intro t ht
    rw [parentPathsIn, List.nodup_cons]
    constructor
    · intro hmem
      obtain ⟨p, -, hqs⟩ := List.mem_flatMap.1 hmem
      obtain ⟨qs, hqs, heq⟩ := List.mem_map.1 hqs
      obtain rfl : qs = [] := (List.cons.inj heq).2
      cases head?_of_mem_parentPathsIn hqs
    · have hids : ((r.parentsOf t).map (·.id)).Nodup :=
        (h.parents_nodup t ht).sublist (ids_parentsOf_sublist r t)
      refine List.nodup_flatMap.2 ⟨fun p hp => ?_, (List.pairwise_map.1 hids).imp fun hne => ?_⟩
      · exact (ih ((mem_parentsOf h.ids_nodup).1 hp).1).map List.cons_injective
      · intro x hx hx'
        obtain ⟨qs, hqs, rfl⟩ := List.mem_map.1 hx
        obtain ⟨qs', hqs', heq⟩ := List.mem_map.1 hx'
        obtain rfl := (List.cons.inj heq).2
        have h1 := head?_of_mem_parentPathsIn hqs
        rw [head?_of_mem_parentPathsIn hqs'] at h1
        exact hne (Option.some.inj h1).symm

/-- A type with a serializer runs once in the serialization order of `t` for each path from `t`
to it: induction on the depth, the serializers of each parent's order running after a step from
`t` to that parent. -/
theorem count_serialOrderIn {u : TypeEntry} (hu : u ∈ r.types) (hser : u.serializer.isSome) :
    ∀ d {t : TypeEntry}, t ∈ r.types → ((r.serialOrderIn d t).map (·.id)).count u.id =
      (r.parentPathsIn d t).countP (·.getLast? == some u.id) := by
  intro d
  induction d with
  | zero => intro t _; rfl
  | succ d ih =>
    intro t ht
    -- the paths through each parent, each stepping first from `t`
    have hparents : ((r.parentsOf t).map fun p => ((r.serialOrderIn d p).map (·.id)).count u.id) =
        (r.parentsOf t).map fun p =>
          ((r.parentPathsIn d p).map (t.id :: ·)).countP (·.getLast? == some u.id) := by
      refine List.map_congr_left fun p hp => ?_
      rw [ih ((mem_parentsOf h.ids_nodup).1 hp).1, List.countP_map]
      refine List.countP_congr fun qs hqs => ?_
      obtain ⟨rest, rfl⟩ := List.head?_eq_some_iff.1 (head?_of_mem_parentPathsIn hqs)
      simp [List.getLast?_cons_cons]
    -- the path that stops at `t` counts when `t` is the type asked about
    have hself : ((if t.serializer.isSome then [t] else []).map (·.id)).count u.id =
        if ([t.id].getLast? == some u.id) = true then 1 else 0 := by
      by_cases hid : t.id = u.id
      · obtain rfl := h.eq_of_id_eq ht hu hid
        simp [hser]
      · split <;> simp [hid]
    simp only [serialOrderIn, parentPathsIn, List.map_append, List.count_append, List.map_flatMap,
      List.count_flatMap, List.countP_cons, List.countP_flatMap]
    rw [hself]
    congr 1
    exact congrArg List.sum hparents

/-- The paths from `t` to `u` are those enumerated from `t` that end at `u`, each once. -/
theorem ncard_parentPath {t : TypeEntry} (ht : t ∈ r.types) (u : TypeEntry) :
    Set.ncard {ps | r.ParentPath t.id u.id ps} =
      (r.parentPathsIn (r.size + 1) t).countP (·.getLast? == some u.id) := by
  have hlt := card_ancestors_lt_size h ht
  have hset : {ps | r.ParentPath t.id u.id ps} =
      ↑(((r.parentPathsIn (r.size + 1) t).filter (·.getLast? == some u.id)).toFinset) := by
    ext ps
    simp only [ParentPath, Set.mem_ofPred_eq, Finset.mem_coe, List.mem_toFinset, List.mem_filter,
      beq_iff_eq]
    constructor
    · rintro ⟨hhead, hlast, hchain⟩
      exact ⟨mem_parentPathsIn_of_isChain h _ ht (by omega) hhead hchain, hlast⟩
    · rintro ⟨hps, hlast⟩
      exact ⟨head?_of_mem_parentPathsIn hps, hlast, isChain_of_mem_parentPathsIn h _ ht hps⟩
  rw [hset, Set.ncard_coe_finset,
    List.toFinset_card_of_nodup ((nodup_parentPathsIn h _ ht).filter _),
    List.countP_eq_length_filter]

end Paths

/-- Serializing an object as a registered type of a reachable registry, whatever the serializers
supplied at registration write. The types whose serializers run form the serialization order:
that of each parent, in the order the edges were added, then the type itself if it has a
serializer, whatever depth beyond the number of types bounds the recursion. The serializers run
in that order, each with the registry, its type and the object, and the first error stops the
writing and is returned, after the events of the serializers before it and its own; there is no
error exactly when every serializer ends well. When every type of the order uses the serializer of
own properties, there is no error exactly when every serialized property's value writes, and
then the archive holds one map per type of the order, with the names and written values of that
type's serialized properties in registration order. A type with a serializer runs once for each
path of parent edges to it. -/
theorem serialize_runs_parents_first {r : Registry} (hr : r.Reachable)
    (supplied : Nat → SerializerFn) {name : String} {t : TypeEntry} (ht : r.find? name = some t)
    (o : Object) :
    r.serialOrder t =
        (r.parentsOf t).flatMap r.serialOrder ++ (if t.serializer.isSome then [t] else []) ∧
    (∀ d, r.size < d → Writes (r.serializeAs supplied o d t) ()
      (sequence ((r.serialOrder t).map (r.serializerOutcome supplied o)))) ∧
    r.serialize supplied name o =
      sequence ((r.serialOrder t).map (r.serializerOutcome supplied o)) ∧
    (∀ e, (r.serialize supplied name o).2 = some e →
      ∃ pre u post, r.serialOrder t = pre ++ u :: post ∧
        (∀ v ∈ pre, (r.serializerOutcome supplied o v).2 = none) ∧
        (r.serializerOutcome supplied o u).2 = some e ∧
        (r.serialize supplied name o).1 =
          pre.flatMap (fun v => (r.serializerOutcome supplied o v).1) ++
            (r.serializerOutcome supplied o u).1) ∧
    ((r.serialize supplied name o).2 = none ↔
      ∀ u ∈ r.serialOrder t, (r.serializerOutcome supplied o u).2 = none) ∧
    ((∀ u ∈ r.serialOrder t, u.serializer = some .ownProperties) →
      ((r.serialize supplied name o).2 = none ↔
        ∀ u ∈ r.serialOrder t, ∀ p ∈ u.serialized, ∃ v, r.writtenValue p o = .ok v) ∧
      ∀ w : Property → Value,
        (∀ u ∈ r.serialOrder t, ∀ p ∈ u.serialized, r.writtenValue p o = .ok (w p)) →
        r.serialize supplied name o = ((r.serialOrder t).flatMap fun u =>
          .beginMap :: u.serialized.flatMap (fun p => [.key p.name, .value (w p)]) ++ [.endMap],
            none)) ∧
    ∀ u ∈ r.types, u.serializer.isSome →
      ((r.serialOrder t).map (·.id)).count u.id = Set.ncard {ps | r.ParentPath t.id u.id ps} := by
  have h := hr.wellFormed
  have htm : t ∈ r.types := (find?_eq_some ht).1
  have hser := serialize_eq_sequence supplied ht o
  refine ⟨serialOrder_unfold h t, fun d hd => ?_, hser, fun e he => ?_, ?_, fun hown => ?_,
    fun u hu hus => ?_⟩
  · rw [← serialOrderIn_of_size_lt h htm hd]
    exact writes_serializeAs r supplied o d t
  · -- the first serializer that fails
    rw [hser] at he ⊢
    obtain ⟨pre, out, post, hsplit, hpre, hout, hes⟩ := sequence_eq_error_iff.1 he
    obtain ⟨pre', rest, horder, rfl, hrest⟩ := List.map_eq_append_iff.1 hsplit
    obtain ⟨u, post', rfl, rfl, rfl⟩ := List.map_eq_cons_iff.1 hrest
    refine ⟨pre', u, post', horder, fun v hv => hpre _ (List.mem_map_of_mem hv), hout, ?_⟩
    rw [hes, List.flatMap_map]
  · rw [hser, sequence_eq_none_iff, List.forall_mem_map]
  · -- every serializer of the order writes the map of own properties
    have hown' : r.serialize supplied name o =
        sequence ((r.serialOrder t).map (r.ownPropertiesEvents · o)) := by
      rw [hser, List.map_congr_left fun u hu => serializerOutcome_of_ownProperties (hown u hu)]
    refine ⟨?_, fun w hw => ?_⟩
    · rw [hown', sequence_eq_none_iff]
      simp [ownPropertiesEvents_snd_eq_none_iff]
    · have hgroups : (r.serialOrder t).map (r.ownPropertiesEvents · o) =
          (r.serialOrder t).map fun u =>
            (.beginMap :: u.serialized.flatMap (fun p => [.key p.name, .value (w p)]) ++
              [.endMap], none) :=
        List.map_congr_left fun u hu => ownPropertiesEvents_of_written (hw u hu)
      rw [hown', hgroups, sequence_of_forall_none (by simp), List.flatMap_map]
  · rw [serialOrder, count_serialOrderIn h hu hus _ htm, ncard_parentPath h htm]

/-! ## The diamond -/

/-- What supplied serializers write when none is given: nothing. -/
def writesNothing : Nat → SerializerFn := fun _ _ _ _ => ([], none)

/-- An object with no fields, serialized as the bottom of the diamond. -/
def diamondObject : Object := NativeClass.objectBase.instantiate

/-- Serializing the bottom of the diamond runs `Base` once along each side, so there are two
parent paths from `Leaf` to `Base`; every value writes, the enum value as `Team::Red`, and the
property of `Leaf` decorated `DontSerialize` is left out. -/
theorem serialize_runs_parents_first_diamond :
    (diamond.serialOrder (diamondType "Leaf")).map (·.name) =
        ["Base", "Left", "Base", "Right", "Leaf"] ∧
      ArchiveEvent.keys (diamond.serialize writesNothing "Leaf" diamondObject).1 =
        ["name", "team", "name", "name"] ∧
      (ArchiveEvent.valueOf? (diamond.serialize writesNothing "Leaf" diamondObject).1 "team" ==
        some (.str "Team::Red")) = true ∧
      (diamond.serialize writesNothing "Leaf" diamondObject).2.isNone = true ∧
      Set.ncard {ps | diamond.ParentPath (diamondType "Leaf").id (diamondType "Base").id ps} = 2 := by
  have hleaf : diamond.find? "Leaf" = some (diamondType "Leaf") := rfl
  obtain ⟨-, -, hser, -, -, -, hcount⟩ :=
    serialize_runs_parents_first reachable_diamond writesNothing hleaf diamondObject
  have hbase : diamondType "Base" ∈ diamond.types :=
    (find?_eq_some (rfl : diamond.find? "Base" = some (diamondType "Base"))).1
  refine ⟨by decide, ?_, ?_, ?_, ?_⟩
  · rw [hser]
    decide
  · rw [hser]
    decide
  · rw [hser]
    decide
  · rw [← hcount _ hbase (by decide)]
    decide

end Registry

end TypeReflection
