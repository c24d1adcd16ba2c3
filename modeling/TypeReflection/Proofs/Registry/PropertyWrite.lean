import Mathlib.Algebra.Group.Int.Defs
import Mathlib.Algebra.Group.Nat.Defs
import TypeReflection.Registry.Property

/-!
# Writing a property through the embedded bases

A property made from a field of a native class (`Accessor.OfField`) writes that field in the
*part* of an object for the class: the first object along the chain of embedded bases whose
class has the class's full name.

A write succeeds exactly when the field can take the value, the object has such a part, and
the property is writable (`setValue_ok_iff`). It then changes one thing only: in the part at
the first matching depth of the chain, the field now holds the value (an enum value retagged
with the enum's registered name), and every other field at every depth reads as before. A
refused write gives the error of the first check that fails: writability, then the value, then
the object's class; it hands no object back, so the caller's object is as it was.

Two properties of the object make the write land where the accessor says: each part holds the
fields its class declares (`Object.Conforms`, true of every object a class makes, by
`instantiate_conforms`), and along the chain the accessor's class is the only class of its full
name (`Object.Identifies`).
-/

set_option autoImplicit false

namespace TypeReflection

/-- The fields a native class declares, with their types. -/
def NativeClass.fields : NativeClass → List (String × FieldType)
  | .mk _ _ fields _ => fields

theorem NativeClass.same_self (c : NativeClass) : c.same c = true := by
  simp [NativeClass.same]

/-- The accessor reads and writes a field its class declares, at the field's declared type. -/
def Accessor.OfField (a : Accessor) : Prop := (a.field, a.fieldType) ∈ a.owner.fields

namespace FieldType

/-- Whether a field of this type takes the value: the value is of the field's variant and an
integer fits the width; an enum value's name is only a tag, its number must be one the enum
accepts. -/
def Holds : FieldType → Value → Prop
  | .signed bits, .int i => -2 ^ (bits - 1) ≤ i ∧ i < 2 ^ (bits - 1)
  | .unsigned bits, .uint n => n < 2 ^ bits
  | .bool, .bool _ => True
  | .float32, .float _ | .float64, .float _ => True
  | .text, .str _ => True
  | .enum _ accepted _, .enum _ x => x ∈ accepted
  | _, _ => False

/-- A field type that stores what it is given: every type but single precision, which rounds. -/
def Exact : FieldType → Prop
  | .float32 => False
  | _ => True

/-- What a field of this type holds after taking `v`: `v` itself, an enum value tagged with the
enum's registered name. -/
def retag : FieldType → Value → Value
  | .enum name .., .enum _ x => .enum name x
  | _, v => v

private theorem intPow_eq (b : Int) (n : Nat) : Int.pow b n = b ^ n := rfl

theorem convert?_isSome_iff (t : FieldType) (v : Value) : (t.convert? v).isSome ↔ t.Holds v := by
  cases t <;> cases v <;> simp [convert?, Holds, intPow_eq]

theorem convert?_eq_some_iff {t : FieldType} (ht : t.Exact) {v w : Value} :
    t.convert? v = some w ↔ t.Holds v ∧ w = t.retag v := by
  cases t <;> cases v <;> simp [convert?, Holds, retag, intPow_eq, Exact] at ht ⊢ <;> grind

end FieldType

namespace Object

/-- The object and its embedded bases, outermost first. -/
def chain : Object → List Object
  | o@(mk _ _ none) => [o]
  | o@(mk _ _ (some b)) => o :: b.chain

/-- The object's own fields with their values. -/
def fields : Object → List (String × Value)
  | mk _ fields _ => fields

/-- What a part holds itself: its class and its own fields. -/
def layer (o : Object) : NativeClass × List (String × Value) := (o.cls, o.fields)

/-- The value of field `name` in the part at depth `k` of the chain. -/
def fieldAt? (o : Object) (k : Nat) (name : String) : Option Value :=
  o.chain[k]?.bind (·.field? name)

/-- Each part of the object holds the fields its class declares, in the class's order. -/
def Conforms (o : Object) : Prop :=
  ∀ q ∈ o.chain, q.fields.map Prod.fst = q.cls.fields.map Prod.fst

/-- Along the object's chain, the full name of `c` names `c` alone. -/
def Identifies (c : NativeClass) (o : Object) : Prop :=
  ∀ q ∈ o.chain, q.cls.same c = true → q.cls = c

/-- `o'` is `o` with field `name` of its first part of class `c` holding `w`: the classes along
the chain are as they were, and so is every other field at every depth. -/
def FieldSet (c : NativeClass) (name : String) (w : Value) (o o' : Object) : Prop :=
  o'.chain.map cls = o.chain.map cls ∧
    ∃ i, o.chain.findIdx? (·.cls.same c) = some i ∧
      ∀ k n, o'.fieldAt? k n = if k = i ∧ n = name then some w else o.fieldAt? k n

theorem chain_eq_cons (o : Object) : o.chain = o :: o.chain.tail := by
  obtain ⟨_, _, _ | _⟩ := o <;> rfl

theorem mem_chain_self (o : Object) : o ∈ o.chain := by
  rw [chain_eq_cons]
  exact List.mem_cons_self

@[simp] theorem chain_some (c : NativeClass) (fs : List (String × Value)) (b : Object) :
    (mk c fs (some b)).chain = mk c fs (some b) :: b.chain := rfl

@[simp] theorem cls_mk (c : NativeClass) (fs : List (String × Value)) (b : Option Object) :
    (mk c fs b).cls = c := rfl

@[simp] theorem fields_mk (c : NativeClass) (fs : List (String × Value)) (b : Option Object) :
    (mk c fs b).fields = fs := rfl

theorem field?_eq (o : Object) (name : String) :
    o.field? name = (o.fields.find? (·.1 == name)).map (·.2) := by
  cases o; rfl

/-! ## Setting one own field -/

@[simp] theorem cls_setField (name : String) (v : Value) (o : Object) :
    (setField name v o).cls = o.cls := by
  cases o; rfl

theorem tail_chain_setField (name : String) (v : Value) (o : Object) :
    (setField name v o).chain.tail = o.chain.tail := by
  obtain ⟨_, _, _ | _⟩ := o <;> rfl

theorem names_setField (name : String) (v : Value) (o : Object) :
    (setField name v o).fields.map Prod.fst = o.fields.map Prod.fst := by
  obtain ⟨c, fs, b⟩ := o
  simp only [setField, fields_mk, List.map_map]
  congr 1
  funext f
  simp only [Function.comp_apply]
  split <;> rfl

theorem field?_setField_self {name : String} {o : Object} (h : name ∈ o.fields.map Prod.fst)
    (v : Value) : (setField name v o).field? name = some v := by
  obtain ⟨c, fs, b⟩ := o
  simp only [fields_mk] at h
  simp only [setField, field?]
  induction fs with
  | nil => simp at h
  | cons f fs ih =>
    obtain ⟨m, old⟩ := f
    by_cases hm : m = name
    · subst hm
      simp
    · have h' : name ∈ fs.map Prod.fst := by
        simp only [List.map_cons, List.mem_cons] at h
        exact h.resolve_left (Ne.symm hm)
      simpa [hm] using ih h'

theorem field?_setField_of_ne {name other : String} (h : other ≠ name) (v : Value) (o : Object) :
    (setField name v o).field? other = o.field? other := by
  obtain ⟨c, fs, b⟩ := o
  simp only [setField, field?]
  induction fs with
  | nil => rfl
  | cons f fs ih =>
    obtain ⟨m, old⟩ := f
    by_cases hm : m = name
    · subst hm
      simpa [Ne.symm h] using ih
    · by_cases ho : m = other <;> simp_all

/-! ## Parts -/

theorem part?_of_same {c : NativeClass} {o : Object} (h : o.cls.same c = true) :
    o.part? c = some o := by
  obtain ⟨oc, fs, b⟩ := o
  simp only [cls_mk] at h
  unfold part?
  rw [if_pos h]

/-- The part found for a class lies on the chain and has the class's full name. -/
theorem mem_chain_of_part? {c : NativeClass} {o q : Object} (h : o.part? c = some q) :
    q ∈ o.chain ∧ q.cls.same c = true := by
  fun_induction part? c o with
  | case1 oc fields base hs =>
    cases h
    exact ⟨mem_chain_self _, hs⟩
  | case2 => cases h
  | case3 oc fields hs b _ ih =>
    obtain ⟨hq, hqs⟩ := ih h
    exact ⟨List.mem_cons_of_mem _ hq, hqs⟩

theorem updatePart?_isSome_iff (c : NativeClass) (g : Object → Object) (o : Object) :
    (o.updatePart? c g).isSome ↔ ∃ q ∈ o.chain, q.cls.same c = true := by
  fun_induction updatePart? c g o with
  | case1 oc fields base hs =>
    simp only [Option.isSome_some, true_iff]
    exact ⟨mk oc fields base, mem_chain_self _, hs⟩
  | case2 oc fields hs =>
    simpa [chain] using hs
  | case3 oc fields hs b _ ih =>
    simp [ih, hs]

theorem updatePart?_eq_none_iff (c : NativeClass) (g : Object → Object) (o : Object) :
    o.updatePart? c g = none ↔ ∀ q ∈ o.chain, q.cls.same c = false := by
  simp [← Option.not_isSome_iff_eq_none, updatePart?_isSome_iff]

/-- Updating a part that keeps its class: afterwards the part for the class is the updated
one. -/
theorem part?_updatePart? {c : NativeClass} {g : Object → Object} (hg : ∀ q, (g q).cls = q.cls)
    {o o' : Object} (h : o.updatePart? c g = some o') :
    ∃ q, o.part? c = some q ∧ o'.part? c = some (g q) := by
  fun_induction updatePart? c g o generalizing o' with
  | case1 oc fields base hs =>
    cases h
    refine ⟨_, part?_of_same hs, part?_of_same ?_⟩
    rw [hg]
    exact hs
  | case2 => cases h
  | case3 oc fields hs b _ ih =>
    obtain ⟨b', hb', rfl⟩ := Option.map_eq_some_iff.1 h
    obtain ⟨q, hq, hq'⟩ := ih hb'
    exact ⟨q, by simpa [part?, hs] using hq, by simpa [part?, hs] using hq'⟩

/-- Updating the part for a class changes the layer at its depth, the first depth whose class
has the full name, and no other layer. -/
theorem updatePart?_layers {c : NativeClass} {g : Object → Object}
    (hg : ∀ q, (g q).cls = q.cls ∧ (g q).chain.tail = q.chain.tail)
    {o o' : Object} (h : o.updatePart? c g = some o') :
    ∃ i q, o.chain.findIdx? (·.cls.same c) = some i ∧ o.chain[i]? = some q ∧
      q.cls.same c = true ∧ o'.chain.map layer = (o.chain.map layer).set i (g q).layer := by
  fun_induction updatePart? c g o generalizing o' with
  | case1 oc fields base hs =>
    cases h
    refine ⟨0, mk oc fields base, ?_, by rw [chain_eq_cons]; rfl, hs, ?_⟩
    · rw [chain_eq_cons, List.findIdx?_cons]
      simp [hs]
    · rw [chain_eq_cons (g _), (hg _).2, chain_eq_cons (mk oc fields base)]
      simp
  | case2 => cases h
  | case3 oc fields hs b _ ih =>
    obtain ⟨b', hb', rfl⟩ := Option.map_eq_some_iff.1 h
    obtain ⟨i, q, hi, hq, hqs, hlayers⟩ := ih hb'
    refine ⟨i + 1, q, ?_, by simpa using hq, hqs, ?_⟩
    · simp [List.findIdx?_cons, hs, hi]
    · simp [hlayers, layer]

/-- The layer at each depth after an update of the part for a class: the updated part's at the
first depth of the class's full name, the old one elsewhere. -/
theorem layer_getElem?_of_updatePart? {c : NativeClass} {g : Object → Object}
    (hg : ∀ q, (g q).cls = q.cls ∧ (g q).chain.tail = q.chain.tail)
    {o o' : Object} (h : o.updatePart? c g = some o') :
    ∃ i q, o.chain.findIdx? (·.cls.same c) = some i ∧ o.chain[i]? = some q ∧
      q.cls.same c = true ∧
      ∀ k, o'.chain[k]?.map layer =
        if k = i then some (g q).layer else o.chain[k]?.map layer := by
  obtain ⟨i, q, hi, hq, hqs, hlayers⟩ := updatePart?_layers hg h
  refine ⟨i, q, hi, hq, hqs, fun k => ?_⟩
  have hlt : i < o.chain.length := (List.getElem?_eq_some_iff.1 hq).1
  rw [← List.getElem?_map, hlayers, List.getElem?_set, List.length_map, if_pos hlt,
    ← List.getElem?_map]
  by_cases hk : k = i
  · rw [if_pos hk.symm, if_pos hk]
  · rw [if_neg (Ne.symm hk), if_neg hk]

theorem fieldAt?_eq (o : Object) (k : Nat) (name : String) :
    o.fieldAt? k name =
      (o.chain[k]?.map layer).bind fun l => (l.2.find? (·.1 == name)).map (·.2) := by
  unfold fieldAt?
  cases o.chain[k]? with
  | none => rfl
  | some q => simp [field?_eq, layer]

/-! ## Conforming objects -/

theorem conforms_some {c : NativeClass} {fs : List (String × Value)} {b : Object} :
    (mk c fs (some b)).Conforms ↔ fs.map Prod.fst = c.fields.map Prod.fst ∧ b.Conforms := by
  simp [Conforms]

theorem conforms_iff_layers (o : Object) :
    o.Conforms ↔ ∀ l ∈ o.chain.map layer, l.2.map Prod.fst = l.1.fields.map Prod.fst := by
  simp [Conforms, layer]

/-- Every object a class makes holds the fields each of its classes declares. -/
theorem instantiate_conforms (c : NativeClass) : c.instantiate.Conforms := by
  fun_induction NativeClass.instantiate c with
  | case1 name fullName fields base ih =>
    cases base with
    | none =>
      intro q hq
      simp only [chain, List.mem_singleton] at hq
      subst hq
      simp [NativeClass.fields]
    | some b => exact conforms_some.2 ⟨by simp [NativeClass.fields], ih⟩

theorem Identifies.exists_same_iff {c : NativeClass} {o : Object} (hid : o.Identifies c) :
    (∃ q ∈ o.chain, q.cls.same c = true) ↔ ∃ q ∈ o.chain, q.cls = c :=
  ⟨fun ⟨q, hq, hs⟩ => ⟨q, hq, hid q hq hs⟩,
    fun ⟨q, hq, hc⟩ => ⟨q, hq, hc ▸ NativeClass.same_self _⟩⟩

end Object

/-- Why a write of `v` to the property of `o` is refused. The checks come in the order they are
made, each check that passed a premise of the next. -/
inductive Property.Refusal (p : Property) (o : Object) (v : Value) : RegistryError → Prop
  | readOnly : p.accessor.writable = false → Refusal p o v (.readOnlyProperty p.name)
  | mismatch : p.accessor.writable = true → ¬ p.accessor.fieldType.Holds v →
      Refusal p o v (.propertyTypeMismatch p.name p.kind v.kind)
  | noPart : p.accessor.writable = true → p.accessor.fieldType.Holds v →
      (∀ q ∈ o.chain, q.cls.same p.accessor.owner = false) →
      Refusal p o v (.objectTypeMismatch p.accessor.owner.fullName o.typeName)

namespace Property

variable {p : Property} {o o' : Object} {v : Value}

/-- A write succeeds when, and only when, the property is writable, the value converts, and the
object has a part of the accessor's class, whose field takes the converted value. -/
theorem setValue_eq_ok_iff :
    p.setValue o v = .ok o' ↔ p.accessor.writable = true ∧ ∃ w,
      p.accessor.fieldType.convert? v = some w ∧
      o.updatePart? p.accessor.owner (Object.setField p.accessor.field w) = some o' := by
  unfold setValue readOnly
  cases hw : p.accessor.writable with
  | false => simp
  | true =>
    cases hc : p.accessor.fieldType.convert? v with
    | none => simp
    | some w =>
      cases hu : o.updatePart? p.accessor.owner (Object.setField p.accessor.field w) with
      | none => simp [hu]
      | some o'' => simp [hu]

/-- A write is refused exactly for the reason `Refusal` gives: the first check that fails. -/
theorem setValue_eq_error_iff {e : RegistryError} :
    p.setValue o v = .error e ↔ p.Refusal o v e := by
  unfold setValue readOnly
  cases hw : p.accessor.writable with
  | false =>
    simp only [Bool.not_false, if_true, Except.error.injEq]
    constructor
    · rintro rfl
      exact .readOnly hw
    · rintro (_ | ⟨hw', -⟩ | ⟨hw', -, -⟩)
      · rfl
      all_goals simp [hw] at hw'
  | true =>
    simp only [Bool.not_true, Bool.false_eq_true, if_false]
    cases hc : p.accessor.fieldType.convert? v with
    | none =>
      have hh : ¬ p.accessor.fieldType.Holds v := by
        rw [← FieldType.convert?_isSome_iff, hc]
        exact Bool.false_ne_true
      simp only [Except.error.injEq]
      constructor
      · rintro rfl
        exact .mismatch hw hh
      · rintro (hw' | ⟨-, -⟩ | ⟨-, hh', -⟩)
        · simp [hw] at hw'
        · rfl
        · exact absurd hh' hh
    | some w =>
      have hh : p.accessor.fieldType.Holds v := by
        rw [← FieldType.convert?_isSome_iff, hc]
        rfl
      cases hu : o.updatePart? p.accessor.owner (Object.setField p.accessor.field w) with
      | none =>
        have hno := (Object.updatePart?_eq_none_iff _ _ _).1 hu
        simp only [hu, Except.error.injEq, partMissing]
        constructor
        · rintro rfl
          exact .noPart hw hh hno
        · rintro (hw' | ⟨-, hh'⟩ | ⟨-, -, -⟩)
          · simp [hw] at hw'
          · exact absurd hh hh'
          · rfl
      | some o' =>
        simp only [hu, reduceCtorEq, false_iff]
        rintro (hw' | ⟨-, hh'⟩ | ⟨-, -, hno⟩)
        · simp [hw] at hw'
        · exact hh' hh
        · rw [(Object.updatePart?_eq_none_iff _ _ _).2 hno] at hu
          cases hu

/-- A write succeeds exactly when the field takes the value, the object has a part of the
accessor's class, and the property is writable. -/
theorem setValue_ok_iff :
    (∃ o', p.setValue o v = .ok o') ↔
      p.accessor.fieldType.Holds v ∧ (∃ q ∈ o.chain, q.cls.same p.accessor.owner = true) ∧
        p.accessor.writable = true := by
  simp only [setValue_eq_ok_iff]
  constructor
  · rintro ⟨o', hw, w, hc, hu⟩
    refine ⟨(FieldType.convert?_isSome_iff _ _).1 (by rw [hc]; rfl), ?_, hw⟩
    exact (Object.updatePart?_isSome_iff _ _ _).1 (by rw [hu]; rfl)
  · rintro ⟨hh, hpart, hw⟩
    obtain ⟨w, hc⟩ := Option.isSome_iff_exists.1 ((FieldType.convert?_isSome_iff _ _).2 hh)
    obtain ⟨o', hu⟩ := Option.isSome_iff_exists.1
      ((Object.updatePart?_isSome_iff _ (Object.setField p.accessor.field w) _).2 hpart)
    exact ⟨o', hw, w, hc, hu⟩

/-- A write keeps the object holding the fields its classes declare. -/
theorem setValue_conforms (hconf : o.Conforms) (h : p.setValue o v = .ok o') : o'.Conforms := by
  obtain ⟨-, w, -, hu⟩ := setValue_eq_ok_iff.1 h
  obtain ⟨i, q, -, hq, -, hlayers⟩ := Object.updatePart?_layers
    (fun q => ⟨Object.cls_setField _ _ q, Object.tail_chain_setField _ _ q⟩) hu
  rw [Object.conforms_iff_layers] at hconf ⊢
  rw [hlayers]
  intro l hl
  rcases List.mem_or_eq_of_mem_set hl with hl | rfl
  · exact hconf l hl
  · have hmem : q.layer ∈ o.chain.map Object.layer :=
      List.mem_map_of_mem (List.mem_of_getElem? hq)
    simpa [Object.layer, Object.names_setField] using hconf _ hmem

section Written

variable (hfield : p.accessor.OfField) (hconf : o.Conforms) (hid : o.Identifies p.accessor.owner)
include hfield hconf hid

/-- The part a write lands in holds the accessor's field. -/
theorem field_mem_of_part {q : Object} (hq : q ∈ o.chain)
    (hs : q.cls.same p.accessor.owner = true) :
    p.accessor.field ∈ q.fields.map Prod.fst := by
  rw [hconf q hq, hid q hq hs]
  exact List.mem_map.2 ⟨_, hfield, rfl⟩

/-- After a write the property reads the value written, an enum value under the enum's name. -/
theorem getValue_setValue (hexact : p.accessor.fieldType.Exact) (h : p.setValue o v = .ok o') :
    p.getValue o' = .ok (p.accessor.fieldType.retag v) := by
  obtain ⟨-, w, hw, hu⟩ := setValue_eq_ok_iff.1 h
  obtain ⟨-, rfl⟩ := (FieldType.convert?_eq_some_iff hexact).1 hw
  obtain ⟨q, hq, hq'⟩ := Object.part?_updatePart? (Object.cls_setField _ _) hu
  obtain ⟨hmem, hsame⟩ := Object.mem_chain_of_part? hq
  unfold getValue
  rw [hq']
  dsimp only
  rw [Object.field?_setField_self (field_mem_of_part hfield hconf hid hmem hsame)]
  rfl

/-- A write changes the accessor's field in the first part of its class, and nothing else. -/
theorem setValue_fieldSet (hexact : p.accessor.fieldType.Exact) (h : p.setValue o v = .ok o') :
    o.FieldSet p.accessor.owner p.accessor.field (p.accessor.fieldType.retag v) o' := by
  obtain ⟨-, w, hw, hu⟩ := setValue_eq_ok_iff.1 h
  obtain ⟨-, rfl⟩ := (FieldType.convert?_eq_some_iff hexact).1 hw
  obtain ⟨i, q, hi, hq, hqs, hk⟩ := Object.layer_getElem?_of_updatePart?
    (fun q => ⟨Object.cls_setField _ _ q, Object.tail_chain_setField _ _ q⟩) hu
  have hf := field_mem_of_part hfield hconf hid (List.mem_of_getElem? hq) hqs
  have hcls (r : Option Object) : r.map Object.cls = (r.map Object.layer).map Prod.fst := by
    cases r <;> rfl
  refine ⟨List.ext_getElem? fun k => ?_, i, hi, fun k n => ?_⟩
  · rw [List.getElem?_map, List.getElem?_map, hcls, hk k, hcls]
    split
    · subst k
      simp [hq, Object.layer]
    · rfl
  · rw [Object.fieldAt?_eq, hk k, Object.fieldAt?_eq]
    by_cases hki : k = i
    · subst k
      rw [if_pos rfl, hq]
      simp only [Option.bind_some, Option.map_some, Object.layer]
      rw [← Object.field?_eq, ← Object.field?_eq]
      by_cases hn : n = p.accessor.field
      · subst n
        rw [if_pos ⟨trivial, rfl⟩, Object.field?_setField_self hf]
      · rw [if_neg (fun h => hn h.2), Object.field?_setField_of_ne hn]
    · rw [if_neg hki, if_neg (fun h => hki h.1)]

end Written

/-- Writing a property made from a field: the write succeeds exactly when the field takes the
value, the object has a part of the field's class and the property is writable. It then sets
that field of the first such part, which reads the value back, and changes nothing else. It is
refused with the error of the first check that fails. -/
theorem setValue_writes_its_field (hfield : p.accessor.OfField)
    (hexact : p.accessor.fieldType.Exact) (hconf : o.Conforms)
    (hid : o.Identifies p.accessor.owner) :
    ((∃ o', p.setValue o v = .ok o') ↔
      p.accessor.fieldType.Holds v ∧ (∃ q ∈ o.chain, q.cls = p.accessor.owner) ∧
        p.accessor.writable = true) ∧
    (∀ o', p.setValue o v = .ok o' →
      p.getValue o' = .ok (p.accessor.fieldType.retag v) ∧
        o.FieldSet p.accessor.owner p.accessor.field (p.accessor.fieldType.retag v) o') ∧
    ∀ e, p.setValue o v = .error e ↔ p.Refusal o v e := by
  refine ⟨?_, fun o' h => ⟨getValue_setValue hfield hconf hid hexact h,
    setValue_fieldSet hfield hconf hid hexact h⟩, fun e => setValue_eq_error_iff⟩
  rw [setValue_ok_iff, hid.exists_same_iff]

/-! ## A hero's health -/

/-- A pawn: its health, a 32-bit signed integer. -/
def pawnClass : NativeClass := .mk "Pawn" "game::Pawn" [("health", .signed 32)] none

/-- A player: a pawn with an avatar, a cooldown and a side. -/
def playerClass : NativeClass :=
  .mk "Player" "game::Player"
    [("avatar", .text), ("cooldown", .float32), ("side", .enum "Team" [0, 5, -3] 0)]
    (some pawnClass)

/-- A hero: a player with a level. -/
def heroClass : NativeClass := .mk "Hero" "game::Hero" [("level", .unsigned 8)] (some playerClass)

/-- The pawn's health, writable. -/
def healthProperty : Property :=
  ⟨"Pawn.health", "int32_t", ⟨pawnClass, "health", .signed 32, true⟩, .empty⟩

theorem heroClass_identifies_pawnClass : heroClass.instantiate.Identifies pawnClass := by
  intro q hq hs
  simp only [heroClass, playerClass, pawnClass, NativeClass.instantiate, Object.chain_some,
    Object.chain, List.mem_cons, List.not_mem_nil, or_false] at hq
  rcases hq with rfl | rfl | rfl
  · exact absurd hs (by decide)
  · exact absurd hs (by decide)
  · rfl

/-- A hero's health, two bases down, written at the least 32-bit value. -/
theorem setValue_writes_its_field_hero :
    healthProperty.accessor.OfField ∧ healthProperty.accessor.fieldType.Exact ∧
      heroClass.instantiate.Conforms ∧ heroClass.instantiate.Identifies pawnClass ∧
      ((∃ o', healthProperty.setValue heroClass.instantiate (.int (-2147483648)) = .ok o') ↔
        healthProperty.accessor.fieldType.Holds (.int (-2147483648)) ∧
          (∃ q ∈ heroClass.instantiate.chain, q.cls = pawnClass) ∧
          healthProperty.accessor.writable = true) ∧
      (∀ o', healthProperty.setValue heroClass.instantiate (.int (-2147483648)) = .ok o' →
        healthProperty.getValue o' = .ok (.int (-2147483648)) ∧
          heroClass.instantiate.FieldSet pawnClass "health" (.int (-2147483648)) o') ∧
      ∀ e, healthProperty.setValue heroClass.instantiate (.int (-2147483648)) = .error e ↔
        healthProperty.Refusal heroClass.instantiate (.int (-2147483648)) e := by
  have hfield : healthProperty.accessor.OfField := List.mem_cons_self
  exact ⟨hfield, trivial, Object.instantiate_conforms _, heroClass_identifies_pawnClass,
    setValue_writes_its_field hfield trivial (Object.instantiate_conforms _)
      heroClass_identifies_pawnClass⟩

end Property

end TypeReflection
