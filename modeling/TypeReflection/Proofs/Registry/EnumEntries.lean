import TypeReflection.Proofs.Registry.Inheritance

/-!
# The entries of a registered enum

An enum is built by a run of `addValue` calls on an empty enum. Each call assigns a value: its
own when it gives one, and otherwise zero for the first call and one more than the value the
call before it assigned, stopping at `maxInt64` (`assignedValue`, `assignments`). A call whose
value is present already renames that entry; any other call appends one.

A lemma for each question says what one call does to its answer (`values_addValue`,
`valueToString_addValue`, `last_addValue`), and induction over the calls gives the run: the
values are the assigned ones, each once, in the order of their first assignment, and a value
reads back as the name of the last call that assigned it. The values stay distinct, so the value
found for a stored name reads back as that name.

Registering an enum puts it in place of the enum of the same name, or else at the end. So the
enums of a reachable registry have distinct names, and `findEnum?` finds under a name the enum
registered under it last.

Main statement: `build_assigns_in_order`.
-/

set_option autoImplicit false

namespace TypeReflection

namespace EnumType

/-- The value a call assigns after calls that last assigned `last`: its own value if it gives
one, and otherwise zero for the first call and one more than the last value, saturating at
`maxInt64`. -/
def assignedValue (last : Option Int) : Option Int → Int
  | some v => v
  | none => last.elim 0 fun l => min (l + 1) maxInt64

/-- The value each call of a run assigns after calls that last assigned `last`, with the name
the call gives. -/
def assignments (last : Option Int) : List (String × Option Int) → List (Int × String)
  | [] => []
  | (n, v?) :: rest => (assignedValue last v?, n) :: assignments (some (assignedValue last v?)) rest

/-- The values of an enum's entries, in order. -/
def values (e : EnumType) : List Int := e.entries.map (·.1)

/-- A run of `addValue` calls. -/
abbrev addValues (e : EnumType) (calls : List (String × Option Int)) : EnumType :=
  calls.foldl (fun e (n, v) => e.addValue n v) e

theorem build_eq (name : String) (calls : List (String × Option Int)) :
    build name calls = (empty name).addValues calls := rfl

@[simp] theorem addValues_nil (e : EnumType) : e.addValues [] = e := rfl

@[simp] theorem addValues_cons (e : EnumType) (n : String) (v? : Option Int)
    (calls : List (String × Option Int)) :
    e.addValues ((n, v?) :: calls) = (e.addValue n v?).addValues calls := rfl

@[simp] theorem assignments_nil (last : Option Int) : assignments last [] = [] := rfl

@[simp] theorem assignments_cons (last : Option Int) (n : String) (v? : Option Int)
    (calls : List (String × Option Int)) :
    assignments last ((n, v?) :: calls) =
      (assignedValue last v?, n) :: assignments (some (assignedValue last v?)) calls := rfl

/-! ## One call -/

/-- What one call does: it assigns `assignedValue`, renames the entry of that value if there is
one and appends an entry otherwise, and records the value as the last. -/
theorem addValue_eq (e : EnumType) (n : String) (v? : Option Int) :
    e.addValue n v? = { e with
      entries :=
        if e.entries.any (·.1 == assignedValue e.last v?) then
          e.entries.map fun (v, m) => if v == assignedValue e.last v? then (v, n) else (v, m)
        else e.entries ++ [(assignedValue e.last v?, n)]
      last := some (assignedValue e.last v?) } := by
  obtain ⟨name, entries, last⟩ := e
  cases v? <;> cases last <;> rfl

@[simp] theorem name_addValue (e : EnumType) (n : String) (v? : Option Int) :
    (e.addValue n v?).name = e.name := by
  rw [addValue_eq]

@[simp] theorem last_addValue (e : EnumType) (n : String) (v? : Option Int) :
    (e.addValue n v?).last = some (assignedValue e.last v?) := by
  rw [addValue_eq]

theorem any_fst_iff (entries : List (Int × String)) (x : Int) :
    entries.any (·.1 == x) = true ↔ x ∈ entries.map (·.1) := by
  rw [List.any_eq_true, List.mem_map]
  simp only [beq_iff_eq]

/-- A call keeps the values when its value is present and appends it otherwise. -/
theorem values_addValue (e : EnumType) (n : String) (v? : Option Int) :
    (e.addValue n v?).values =
      if assignedValue e.last v? ∈ e.values then e.values
      else e.values ++ [assignedValue e.last v?] := by
  by_cases hx : assignedValue e.last v? ∈ e.values
  · have hany := (any_fst_iff e.entries _).2 hx
    rw [if_pos hx, addValue_eq]
    simp only [values, hany, if_true, List.map_map]
    apply List.map_congr_left
    intro p _
    by_cases hp : p.1 = assignedValue e.last v? <;> simp [hp]
  · have hany : e.entries.any (·.1 == assignedValue e.last v?) = false := by
      rw [Bool.eq_false_iff, ne_eq, any_fst_iff]
      exact hx
    rw [if_neg hx, addValue_eq]
    simp [values, hany]

/-- A call keeps the values distinct. -/
theorem nodup_values_addValue {e : EnumType} (h : e.values.Nodup) (n : String)
    (v? : Option Int) : (e.addValue n v?).values.Nodup := by
  rw [values_addValue]
  split
  · exact h
  · next hx =>
    exact List.nodup_append.2 ⟨h, List.nodup_singleton _, fun a ha b hb heq =>
      hx (by rw [List.mem_singleton.1 hb] at heq; exact heq ▸ ha)⟩

/-- Renaming entries keeps their values, so a value finds the renamed entry it found before. -/
theorem find?_map_of_fst {f : Int × String → Int × String} (hf : ∀ p, (f p).1 = p.1)
    (entries : List (Int × String)) (w : Int) :
    (entries.map f).find? (·.1 == w) = (entries.find? (·.1 == w)).map f := by
  induction entries with
  | nil => rfl
  | cons p ps ih =>
    simp only [List.map_cons, List.find?_cons, hf]
    split <;> simp [ih]

/-- After a call, its value finds the entry with the name it gave, and every other value the
entry it found before. -/
theorem find?_addValue (e : EnumType) (n : String) (v? : Option Int) (w : Int) :
    (e.addValue n v?).entries.find? (·.1 == w) =
      if w = assignedValue e.last v? then some (w, n) else e.entries.find? (·.1 == w) := by
  rw [addValue_eq]
  dsimp only
  split
  · next hany =>
    rw [find?_map_of_fst (fun p => by split <;> rfl)]
    cases hf : e.entries.find? (·.1 == w) with
    | none =>
      -- the value is present, so only a value other than the call's finds nothing
      have hw : w ≠ assignedValue e.last v? := by
        rintro rfl
        rw [List.find?_eq_none] at hf
        obtain ⟨p, hp, hfst⟩ := List.any_eq_true.1 hany
        exact hf p hp hfst
      simp [hw]
    | some p =>
      obtain ⟨a, m⟩ := p
      obtain rfl : a = w := by simpa using List.find?_some hf
      by_cases hw : a = assignedValue e.last v? <;> simp [hw]
  · next hany =>
    rw [List.find?_append]
    by_cases hw : w = assignedValue e.last v?
    · subst hw
      have hnone : e.entries.find? (·.1 == assignedValue e.last v?) = none := by
        rw [List.find?_eq_none]
        intro p hp hfst
        exact hany (List.any_eq_true.2 ⟨p, hp, hfst⟩)
      simp [hnone]
    · have hne : (assignedValue e.last v? == w) = false := by simpa using Ne.symm hw
      simp [hw, hne]

/-- After a call, its value reads back as the name it gave, and every other value as before. -/
theorem valueToString_addValue (e : EnumType) (n : String) (v? : Option Int) (w : Int) :
    (e.addValue n v?).valueToString w =
      if w = assignedValue e.last v? then n else e.valueToString w := by
  unfold valueToString
  rw [find?_addValue]
  by_cases hw : w = assignedValue e.last v?
  · rw [if_pos hw, if_pos hw]
  · rw [if_neg hw, if_neg hw]

/-! ## A run of calls -/

@[simp] theorem name_addValues (e : EnumType) (calls : List (String × Option Int)) :
    (e.addValues calls).name = e.name := by
  induction calls generalizing e with
  | nil => rfl
  | cons call calls ih => simp [ih]

/-- After a run, the last value is the one the last call assigned. -/
theorem last_addValues (e : EnumType) (calls : List (String × Option Int)) :
    (e.addValues calls).last = ((assignments e.last calls).getLast?.map (·.1)).or e.last := by
  induction calls generalizing e with
  | nil => simp
  | cons call calls ih =>
    obtain ⟨n, v?⟩ := call
    rw [addValues_cons, ih, last_addValue, assignments_cons]
    cases assignments (some (assignedValue e.last v?)) calls with
    | nil => simp
    | cons a as => simp [List.getLast?_cons]

/-- A run keeps the values distinct. -/
theorem nodup_values_addValues {e : EnumType} (h : e.values.Nodup)
    (calls : List (String × Option Int)) : (e.addValues calls).values.Nodup := by
  induction calls generalizing e with
  | nil => exact h
  | cons call calls ih => exact ih (nodup_values_addValue h call.1 call.2)

/-- After a run, the values are the old ones followed by the newly assigned ones, each once, in
the order of their first assignment. -/
theorem values_addValues (e : EnumType) (calls : List (String × Option Int)) :
    (e.addValues calls).values =
      e.values ++ (((assignments e.last calls).map (·.1)).removeAll e.values).eraseDups := by
  induction calls generalizing e with
  | nil => simp
  | cons call calls ih =>
    obtain ⟨n, v?⟩ := call
    rw [addValues_cons, ih, last_addValue, values_addValue, assignments_cons, List.map_cons]
    by_cases hx : assignedValue e.last v? ∈ e.values
    · simp [hx, List.cons_removeAll]
    · -- a new value goes to the end, and later assignments of it are no longer new
      have hdrop : ((assignments (some (assignedValue e.last v?)) calls).map (·.1)).removeAll
            (e.values ++ [assignedValue e.last v?]) =
          (((assignments (some (assignedValue e.last v?)) calls).map (·.1)).removeAll
            e.values).filter fun b => !b == assignedValue e.last v? := by
        simp only [List.removeAll, List.filter_filter]
        congr 1
        funext b
        by_cases hb : b = assignedValue e.last v? <;> simp [hb]
      simp [hx, List.cons_removeAll, List.eraseDups_cons, hdrop]

/-- After a run, a value reads back as the name of the last call that assigned it, or as before
when no call did. -/
theorem valueToString_addValues (e : EnumType) (calls : List (String × Option Int)) (w : Int) :
    (e.addValues calls).valueToString w =
      (((assignments e.last calls).reverse.find? (·.1 == w)).map (·.2)).getD
        (e.valueToString w) := by
  induction calls generalizing e with
  | nil => simp
  | cons call calls ih =>
    obtain ⟨n, v?⟩ := call
    rw [addValues_cons, ih, last_addValue, valueToString_addValue, assignments_cons,
      List.reverse_cons, List.find?_append]
    cases assignments (some (assignedValue e.last v?)) calls |>.reverse.find? (·.1 == w) with
    | some p => simp
    | none =>
      by_cases hw : w = assignedValue e.last v?
      · simp [hw]
      · have hne : (assignedValue e.last v? == w) = false := by simpa using Ne.symm hw
        simp [hw, hne]

/-! ## Looking a name up -/

/-- With distinct values, the entry found for the value of a stored entry is that entry. -/
theorem find?_value_of_mem {entries : List (Int × String)} (h : (entries.map (·.1)).Nodup)
    {p : Int × String} (hp : p ∈ entries) : entries.find? (·.1 == p.1) = some p := by
  induction entries with
  | nil => cases hp
  | cons q qs ih =>
    rw [List.map_cons, List.nodup_cons] at h
    rw [List.find?_cons]
    rcases List.mem_cons.1 hp with rfl | hq
    · simp
    · have hne : (q.1 == p.1) = false := by
        simpa using fun heq : q.1 = p.1 => h.1 (heq ▸ List.mem_map_of_mem hq)
      simp [hne, ih h.2 hq]

/-- With distinct values, the value found for a stored name reads back as that name. -/
theorem valueToString_stringToValue {e : EnumType} (h : e.values.Nodup) {n : String}
    (hn : n ∈ e.entries.map (·.2)) :
    ∃ v, e.stringToValue? n = some v ∧ e.valueToString v = n := by
  obtain ⟨p, hp⟩ : ∃ p, e.entries.find? (·.2 == n) = some p := by
    rw [← Option.isSome_iff_exists, List.find?_isSome]
    obtain ⟨q, hq, rfl⟩ := List.mem_map.1 hn
    exact ⟨q, hq, by simp⟩
  have hname : p.2 = n := by simpa using List.find?_some hp
  refine ⟨p.1, by simp [stringToValue?, hp], ?_⟩
  simp [valueToString, find?_value_of_mem h (List.mem_of_find?_eq_some hp), hname]

end EnumType

/-! ## Registering enums -/

namespace Registry

/-- The names of the registered enums, in order. -/
def enumNames (r : Registry) : List String := r.enums.map (·.name)

theorem any_name_iff (r : Registry) (m : String) :
    r.enums.any (·.name == m) = true ↔ m ∈ r.enumNames := by
  rw [List.any_eq_true, enumNames, List.mem_map]
  simp only [beq_iff_eq]

theorem putEnum_enums (r : Registry) (e : EnumType) :
    (r.putEnum e).enums =
      if e.name ∈ r.enumNames then r.enums.map fun old => if old.name = e.name then e else old
      else r.enums ++ [e] := by
  unfold putEnum
  by_cases h : e.name ∈ r.enumNames
  · simp [(any_name_iff r e.name).2 h, h]
  · have hany : r.enums.any (·.name == e.name) = false := by
      rw [Bool.eq_false_iff, ne_eq, any_name_iff]
      exact h
    simp [hany, h]

/-- Registering an enum keeps the enum names distinct. -/
theorem nodup_enumNames_putEnum {r : Registry} (h : r.enumNames.Nodup) (e : EnumType) :
    (r.putEnum e).enumNames.Nodup := by
  unfold enumNames
  rw [putEnum_enums]
  split
  · -- the replaced enum has the name it replaces
    have hnames : (r.enums.map fun old => if old.name = e.name then e else old).map (·.name) =
        r.enumNames := by
      simp only [enumNames, List.map_map]
      apply List.map_congr_left
      intro old _
      by_cases hold : old.name = e.name <;> simp [hold]
    rw [hnames]
    exact h
  · next hnew =>
    rw [List.map_append, List.map_singleton]
    exact List.nodup_append.2 ⟨h, List.nodup_singleton _, fun a ha b hb heq =>
      hnew (by rw [List.mem_singleton.1 hb] at heq; exact heq ▸ ha)⟩

/-- With distinct names, the enum named like a new one stands where the new one is put. -/
theorem putEnum_enums_eq_set {r : Registry} (h : r.enumNames.Nodup) (e : EnumType) {i : Nat}
    (hi : i < r.enums.length) (hname : r.enums[i].name = e.name) :
    (r.putEnum e).enums = r.enums.set i e := by
  have hmem : e.name ∈ r.enumNames := hname ▸ List.mem_map_of_mem (List.getElem_mem hi)
  rw [putEnum_enums, if_pos hmem]
  apply List.ext_getElem (by simp)
  intro j hj _
  simp only [List.getElem_map, List.getElem_set]
  by_cases hij : i = j
  · subst hij
    simp [hname]
  · -- only the `i`th enum has that name
    have hj' : j < r.enums.length := by simpa using hj
    have hne : r.enums[j].name ≠ e.name := by
      intro hj_name
      have hi₁ : i < r.enumNames.length := by simpa [enumNames] using hi
      have hj₁ : j < r.enumNames.length := by simpa [enumNames] using hj'
      have heq : r.enumNames[i] = r.enumNames[j] := by simp [enumNames, hname, hj_name]
      exact hij (h.getElem_inj_iff.1 heq)
    simp [hij, hne]

/-- A new name is put at the end. -/
theorem putEnum_enums_of_fresh {r : Registry} {e : EnumType} (h : e.name ∉ r.enumNames) :
    (r.putEnum e).enums = r.enums ++ [e] := by
  rw [putEnum_enums, if_neg h]

/-- After registering an enum, its name finds it and every other name what it found before. -/
theorem findEnum?_putEnum (r : Registry) (e : EnumType) (m : String) :
    (r.putEnum e).findEnum? m = if m = e.name then some e else r.findEnum? m := by
  simp only [findEnum?]
  rw [putEnum_enums]
  split
  · next hmem =>
    rw [List.find?_map]
    have hsame : ((fun old : EnumType => old.name == m) ∘
        fun old => if old.name = e.name then e else old) = fun old => old.name == m := by
      funext old
      by_cases hold : old.name = e.name <;> simp [hold]
    rw [hsame]
    by_cases hm : m = e.name
    · subst hm
      obtain ⟨old, hold⟩ : ∃ old, r.enums.find? (·.name == e.name) = some old := by
        rw [← Option.isSome_iff_exists, List.find?_isSome]
        obtain ⟨old, hold, hname⟩ := List.mem_map.1 hmem
        exact ⟨old, hold, by simp [hname]⟩
      have hname : old.name = e.name := by simpa using List.find?_some hold
      simp [hold, hname]
    · cases hf : r.enums.find? (·.name == m) with
      | none => simp [hm]
      | some old =>
        have hname : old.name = m := by simpa using List.find?_some hf
        simp [hm, hname]
  · next hnew =>
    rw [List.find?_append]
    by_cases hm : m = e.name
    · subst hm
      have hnone : r.enums.find? (·.name == e.name) = none := by
        rw [List.find?_eq_none]
        intro old hold hname
        exact hnew (by simpa [enumNames] using ⟨old, hold, by simpa using hname⟩)
      simp [hnone]
    · have hne : (e.name == m) = false := by simpa using Ne.symm hm
      cases r.enums.find? (·.name == m) <;> simp [hm, hne]

/-- Registering a type leaves the enums alone. -/
theorem enums_addType (r : Registry) (name : String) (native : NativeClass)
    (serializer : Option Serializer) (decorators : DecoratorList) :
    (r.addType name native serializer decorators).1.enums = r.enums := by
  unfold addType
  split <;> rfl

/-- Adding an edge leaves the enums alone. -/
theorem enums_of_addParent {r r' : Registry} {child parent : String}
    (h : r.addParent child parent = .ok r') : r'.enums = r.enums := by
  obtain ⟨c, p, -, -, -, -, ⟨-, rfl⟩ | ⟨-, rfl⟩⟩ := addParent_ok h <;> rfl

/-- Registering a property leaves the enums alone. -/
theorem enums_of_addProperty {r r' : Registry} {owner : String} {p : Property}
    (h : r.addProperty owner p = .ok r') : r'.enums = r.enums := by
  unfold Registry.addProperty at h
  cases ht : r.require owner with
  | error e => simp [ht] at h; cases h
  | ok t =>
    simp only [ht, bind, Except.bind] at h
    split at h
    · simp [throw, throwThe, MonadExceptOf.throw] at h
    · simp only [pure, Except.pure, Except.ok.injEq] at h
      subst h
      rfl

/-- The enums of every reachable registry have distinct names. -/
theorem Reachable.nodup_enumNames {r : Registry} (h : r.Reachable) : r.enumNames.Nodup := by
  induction h with
  | fresh => exact List.nodup_nil
  | step a _ ha ih =>
    cases a with
    | addEnum name values =>
      simp only [apply, Except.ok.injEq] at ha
      exact ha ▸ nodup_enumNames_putEnum ih _
    | addType name native serializer decorators =>
      simp only [apply, Except.ok.injEq] at ha
      rw [← ha, enumNames, enums_addType]
      exact ih
    | addParent child parent =>
      rw [enumNames, enums_of_addParent ha]
      exact ih
    | addProperty owner p =>
      rw [enumNames, enums_of_addProperty ha]
      exact ih

end Registry

namespace EnumType

@[simp] theorem name_build (name : String) (calls : List (String × Option Int)) :
    (build name calls).name = name := by
  rw [build_eq, name_addValues]
  rfl

/-- A run of `addValue` calls on an empty enum keeps its values distinct, lists them in the order
of their first assignment, records the last call's value as the last, and reads each value back
as the name of the last call that assigned it, or as `Unknown` when no call did; the value found
for a stored name reads back as that name. Registering the enum in a reachable registry keeps
the enum names distinct, puts it in place of the enum of the same name or else at the end, and
makes `findEnum?` find it under its name and find under every other name what it found
before. -/
theorem build_assigns_in_order {r : Registry} (hr : r.Reachable) (name : String)
    (calls : List (String × Option Int)) :
    (build name calls).values.Nodup ∧
      (build name calls).values = ((assignments none calls).map (·.1)).eraseDups ∧
      (build name calls).last = (assignments none calls).getLast?.map (·.1) ∧
      (∀ v, (build name calls).valueToString v =
        (((assignments none calls).reverse.find? (·.1 == v)).map (·.2)).getD unknownName) ∧
      (∀ n ∈ (build name calls).entries.map (·.2),
        ∃ v, (build name calls).stringToValue? n = some v ∧
          (build name calls).valueToString v = n) ∧
      (r.putEnum (build name calls)).enumNames.Nodup ∧
      (∀ (i : Nat) (hi : i < r.enums.length), r.enums[i].name = name →
        (r.putEnum (build name calls)).enums = r.enums.set i (build name calls)) ∧
      (name ∉ r.enumNames → (r.putEnum (build name calls)).enums = r.enums ++ [build name calls]) ∧
      ∀ m, (r.putEnum (build name calls)).findEnum? m =
        if m = name then some (build name calls) else r.findEnum? m := by
  have hnodup : (build name calls).values.Nodup := by
    rw [build_eq]
    exact nodup_values_addValues (show (empty name).values.Nodup from List.nodup_nil) calls
  have hnames := hr.nodup_enumNames
  refine ⟨hnodup, ?_, ?_, fun v => ?_, fun n hn => valueToString_stringToValue hnodup hn,
    Registry.nodup_enumNames_putEnum hnames _, fun i hi hname => ?_, fun hfresh => ?_,
    fun m => ?_⟩
  · rw [build_eq, values_addValues]
    simp [values, empty]
  · rw [build_eq, last_addValues]
    simp [empty]
  · exact valueToString_addValues (empty name) calls v
  · exact Registry.putEnum_enums_eq_set hnames _ hi (by rw [name_build]; exact hname)
  · exact Registry.putEnum_enums_of_fresh (by rw [name_build]; exact hfresh)
  · rw [Registry.findEnum?_putEnum, name_build]

/-- The calls of the enum tests with one more, `Crimson = 0`, that renames the value of `Red`,
registered in place of the enum `Team` that `diamond` registered earlier. -/
theorem build_assigns_in_order_team :
    let calls : List (String × Option Int) :=
      [("Red", none), ("Green", some 5), ("Blue", none), ("Crimson", some 0)]
    Registry.diamond.Reachable ∧ Registry.diamond.enumNames = ["Team"] ∧
      (build "Team" calls).values = [0, 5, 6] ∧
      (build "Team" calls).last = some 0 ∧
      (build "Team" calls).valueToString 0 = "Crimson" ∧
      (build "Team" calls).valueToString 7 = unknownName ∧
      (∃ v, (build "Team" calls).stringToValue? "Blue" = some v ∧
        (build "Team" calls).valueToString v = "Blue") ∧
      (Registry.diamond.putEnum (build "Team" calls)).enumNames = ["Team"] ∧
      (Registry.diamond.putEnum (build "Team" calls)).enums =
        Registry.diamond.enums.set 0 (build "Team" calls) ∧
      (Registry.diamond.putEnum (build "Team" calls)).findEnum? "Team" = some (build "Team" calls) ∧
      (Registry.diamond.putEnum (build "Team" calls)).findEnum? "Color" = none := by
  intro calls
  obtain ⟨_, hvalues, hlast, hstring, hread, _, hset, _, hfind⟩ :=
    build_assigns_in_order Registry.reachable_diamond "Team" calls
  have hnames : Registry.diamond.enumNames = ["Team"] := by decide +kernel
  have hzero : 0 < Registry.diamond.enums.length := by decide +kernel
  have hteam : Registry.diamond.enums[0].name = "Team" := by decide +kernel +revert
  have hput := hset 0 hzero hteam
  refine ⟨Registry.reachable_diamond, hnames, hvalues.trans (by decide), hlast.trans (by decide),
    (hstring 0).trans (by decide), (hstring 7).trans (by decide), hread "Blue" (by decide),
    ?_, hput, ?_, ?_⟩
  · rw [Registry.enumNames, hput, List.map_set, name_build]
    simpa [Registry.enumNames] using congrArg (·.set 0 "Team") hnames
  · rw [hfind, if_pos rfl]
  · rw [hfind, if_neg (by decide)]
    decide +kernel

end EnumType

end TypeReflection
