import Mathlib.Data.List.Nodup
import TypeReflection.Proofs.Emit.Macros
import TypeReflection.Proofs.Emit.RecordedId

/-!
# The macros a generated header defines

A generated header defines its include guard, `CURRENT_FILE_ID`, one `_<id>_<line>_GENERATED_BODY`
macro for each record anchored at `<line>`, and the `_<id>_IMPLEMENTATION` macro, in that order
(`defines_emitHeader`). Each macro is written by `Macro.define`, and is read back as one logical
line as long as none of its lines holds a line feed. The lines quote most of what they write
(`Quote.literal` escapes a line feed), but write the names of types, properties and enums, and
the types of properties, as they are: so the reading holds when none of those holds a line feed,
and when the include path, written in the opening comment, holds none either.

The body macros are named by the file id and the anchor's line only, so their names are
distinct exactly when no two records are anchored on one line.
-/

set_option autoImplicit false

namespace TypeReflection

open Macro

/-! ## Texts written on one line -/

@[simp] theorem toString_string (s : String) : toString s = s := rfl

/-- An id character is no line feed, blank or backslash. -/
theorem ne_of_idChar {c : Char} (h : FileId.isHexDigit c = true ∨ c = '_') :
    c ≠ '\n' ∧ c ≠ ' ' ∧ c ≠ '\\' := by
  have hn := FileId.toNat_of_idChar h
  refine ⟨?_, ?_, ?_⟩ <;> rintro rfl <;> simp at hn

theorem ne_of_mem_toDigits {c : Char} {n : Nat} (h : c ∈ Nat.toDigits 10 n) :
    c ≠ '\n' ∧ c ≠ ' ' := by
  have hd := Nat.isDigit_of_mem_toDigits (by decide) (by decide) h
  constructor <;> rintro rfl <;> simp at hd

theorem newline_not_mem_toDigits (n : Nat) : '\n' ∉ Nat.toDigits 10 n :=
  fun h => (ne_of_mem_toDigits h).1 rfl

theorem blank_not_mem_toDigits (n : Nat) : ' ' ∉ Nat.toDigits 10 n :=
  fun h => (ne_of_mem_toDigits h).2 rfl

theorem newline_not_mem_nat (n : Nat) : '\n' ∉ (toString n).toList := by
  simpa using newline_not_mem_toDigits n

theorem newline_not_mem_int (i : Int) : '\n' ∉ i.repr.toList := by
  cases i with
  | ofNat n => exact newline_not_mem_nat n
  | negSucc n =>
    change '\n' ∉ ("-" ++ toString (n + 1)).toList
    simpa using newline_not_mem_nat (n + 1)

/-- A string literal holds no line feed: a line feed in the text is escaped. -/
theorem newline_not_mem_literal (s : String) : '\n' ∉ (Quote.literal s).toList := by
  have hescape : ∀ c, '\n' ∉ Quote.escapeChar c := by
    intro c
    unfold Quote.escapeChar
    split <;> simp_all [eq_comm]
  simp [Quote.literal, Quote.encode, hescape]

theorem not_mem_intercalate {x : Char} {sep : List Char} {L : List (List Char)} (hsep : x ∉ sep)
    (hL : ∀ l ∈ L, x ∉ l) : x ∉ sep.intercalate L := by
  induction L with
  | nil => simp
  | cons l L ih =>
    cases L with
    | nil => simpa using hL l (by simp)
    | cons m L =>
      rw [List.intercalate_cons_cons]
      simp only [List.mem_append, not_or]
      exact ⟨⟨hL l (by simp), hsep⟩, ih fun l' hl' => hL l' (List.mem_cons_of_mem _ hl')⟩

/-- A decorator list quotes every name and value it writes. -/
theorem newline_not_mem_decoratorList (ds : DecoratorList) :
    '\n' ∉ (Emit.decoratorList ds).toList := by
  unfold Emit.decoratorList
  split
  · decide
  · simp only [String.toList_append, List.mem_append, not_or, String.toList_intercalate]
    refine ⟨⟨by decide, not_mem_intercalate (by decide) ?_⟩, by decide⟩
    intro l hl
    obtain ⟨s, hs, rfl⟩ := List.mem_map.1 hl
    obtain ⟨d, -, rfl⟩ := List.mem_map.1 hs
    split
    · simp [newline_not_mem_literal]
    · simp only [String.toList_append, List.mem_append, not_or, String.toList_intercalate]
      refine ⟨⟨⟨⟨by decide, newline_not_mem_literal _⟩, by decide⟩,
        not_mem_intercalate (by decide) ?_⟩, by decide⟩
      intro l hl
      obtain ⟨s, hs, rfl⟩ := List.mem_map.1 hl
      obtain ⟨v, -, rfl⟩ := List.mem_map.1 hs
      exact newline_not_mem_literal v

/-- The include path's fragment in the guard keeps letters, digits and underscores, and writes an
underscore for every other character. -/
theorem mem_guardFragment {c : Char} {p : String} (h : c ∈ (Emit.guardFragment p).toList) :
    c.isAlphanum = true ∨ c = '_' := by
  simp only [Emit.guardFragment, String.toList_ofList, List.mem_map] at h
  obtain ⟨d, -, rfl⟩ := h
  split <;> simp_all

theorem ne_of_mem_guardFragment {c : Char} {p : String} (h : c ∈ (Emit.guardFragment p).toList) :
    c ≠ '\n' ∧ c ≠ ' ' := by
  rcases mem_guardFragment h with h | rfl
  · constructor <;> rintro rfl <;> revert h <;> decide
  · decide

theorem newline_not_mem_guardFragment (p : String) : '\n' ∉ (Emit.guardFragment p).toList :=
  fun h => (ne_of_mem_guardFragment h).1 rfl

theorem blank_not_mem_guardFragment (p : String) : ' ' ∉ (Emit.guardFragment p).toList :=
  fun h => (ne_of_mem_guardFragment h).2 rfl

/-- Lines that end with nonempty `ys` end with the last of `ys`. -/
theorem getLast?_cons_append {α : Type} (a : α) (xs : List α) {ys : List α} (hys : ys ≠ []) :
    (a :: (xs ++ ys)).getLast? = ys.getLast? := by
  rw [← List.cons_append, List.getLast?_append, List.getLast?_eq_some_getLast hys]
  rfl

theorem forall_mem_ite_nil {α : Type} {c : Prop} [Decidable c] {l : List α} {P : α → Prop} :
    (∀ x ∈ (if c then [] else l), P x) ↔ (¬c → ∀ x ∈ l, P x) := by
  split <;> simp_all

/-! ## What a plan writes as it is -/

/-- Every text of a plan that generated code writes as it is, outside a string literal, holds
no line feed: the names of types, properties and enums, and the types of properties. -/
structure RegistrationPlan.OneLine (plan : RegistrationPlan) : Prop where
  types : ∀ t ∈ plan.types, '\n' ∉ t.name.toList
  fields : ∀ t ∈ plan.types, ∀ fs, t.serializer = some fs → ∀ f ∈ fs, '\n' ∉ f.property.toList
  properties : ∀ q ∈ plan.properties,
    '\n' ∉ q.owner.toList ∧ '\n' ∉ q.name.toList ∧ '\n' ∉ q.type.toList
  enums : ∀ e ∈ plan.enums, '\n' ∉ e.name.toList

/-- The plan of declarations whose names and property types hold no line feed writes nothing
with a line feed outside its string literals. -/
theorem RegistrationPlan.oneLine_ofDecls {d : FileDecls}
    (hnames : d.NamesAll fun s => '\n' ∉ s.toList)
    (htypes : ∀ r ∈ d.records, ∀ q ∈ r.properties, '\n' ∉ q.type.toList) : (ofDecls d).OneLine where
  types := by
    simp only [ofDecls, List.mem_map]
    rintro _ ⟨r, hr, rfl⟩
    exact (hnames.1 r hr).1
  fields := by
    simp only [ofDecls, List.mem_map]
    rintro _ ⟨r, hr, rfl⟩ fs hfs f hf
    split at hfs
    · cases hfs
    · cases hfs
      obtain ⟨q, hq, hqf⟩ := List.mem_filterMap.1 hf
      split at hqf
      · cases hqf
      · obtain ⟨k, -, rfl⟩ := Option.map_eq_some_iff.1 hqf
        exact (hnames.1 r hr).2 q hq
  properties := by
    simp only [ofDecls, List.mem_flatMap, List.mem_map]
    rintro _ ⟨r, hr, q, hq, rfl⟩
    exact ⟨(hnames.1 r hr).1, (hnames.1 r hr).2 q hq, htypes r hr q hq⟩
  enums := by
    simp only [ofDecls, List.mem_map]
    rintro _ ⟨e, he, rfl⟩
    exact hnames.2 e he

/-! ## The macros of a header -/

/-- The name of the body macro of a type anchored at `line`. -/
def bodyMacroName (id : String) (line : Nat) : String :=
  "_" ++ id ++ "_" ++ toString line ++ "_GENERATED_BODY"

/-- The macros a header defines, in order: the include guard, `CURRENT_FILE_ID`, the body macro
of each anchored type, and the implementation macro. -/
def headerMacros (plan : RegistrationPlan) (id includePath : String) : List String :=
  ["_META_" ++ Emit.guardFragment includePath ++ "_" ++ id ++ "_", "CURRENT_FILE_ID"] ++
    plan.types.filterMap (fun t => t.bodyLine.map (bodyMacroName id)) ++ ["_" ++ id ++ "_IMPLEMENTATION"]

/-! ## The body macros -/

section Macros

variable {plan : RegistrationPlan} {id : String}

/-- An empty line after a laid-out text defines nothing more. -/
theorem Macro.Defines.append_lineFeed {a : List Char} {names : List String} (h : Defines a names) :
    Defines (a ++ "\n".toList) names := by
  simpa using h.append (Defines.line (l := []) (by simp) (by simp))

theorem Macro.Defines.string_append {a b : String} {m n : List String} (ha : Defines a.toList m)
    (hb : Defines b.toList n) : Defines (a ++ b).toList (m ++ n) := by
  rw [String.toList_append]
  exact ha.append hb

theorem defines_bodyMacro (hplan : plan.OneLine) (hid : ∀ c ∈ id.toList, c ≠ '\n' ∧ c ≠ ' ')
    {t : TypeRegistration} (ht : t ∈ plan.types) (line : Nat) :
    Defines (Emit.bodyMacro plan id t line ++ "\n").toList [bodyMacroName id line] := by
  rw [String.toList_append]
  refine Defines.append_lineFeed ?_
  have hidn : '\n' ∉ id.toList := fun h => (hid _ h).1 rfl
  have hidb : ' ' ∉ id.toList := fun h => (hid _ h).2 rfl
  have hprops : ∀ q ∈ plan.propertiesOf t.name, '\n' ∉ q.name.toList ∧ '\n' ∉ q.type.toList :=
    fun q hq => (hplan.properties q (List.mem_filter.1 hq).1).2
  unfold Emit.bodyMacro
  apply Defines.define
  · simp [hidb, blank_not_mem_toDigits]
  · cases hk : t.kind <;>
      simp only [List.forall_mem_cons, List.forall_mem_append, List.forall_mem_flatMap,
        forall_mem_ite_nil]
    all_goals simp +contextual [hidn, hplan.types t ht, newline_not_mem_toDigits, hprops,
      Emit.propertyGetter, Emit.propertySetter, Emit.typeGetter]
  · intro l hl
    rw [getLast?_cons_append _ _ (by simp)] at hl
    cases hk : t.kind <;> simp [hk] at hl <;> subst hl <;> decide

/-! ## The implementation macro -/

theorem newline_not_mem_accessors (hid : '\n' ∉ id.toList) {q : PropertyRegistration}
    (hq : '\n' ∉ q.owner.toList ∧ '\n' ∉ q.name.toList ∧ '\n' ∉ q.type.toList) :
    ∀ l ∈ Emit.accessors id q, '\n' ∉ l.toList := by
  unfold Emit.accessors
  simp only [List.forall_mem_cons, forall_mem_ite_nil]
  simp +contextual [hid, hq, Emit.propertyGetter, Emit.propertySetter]

theorem newline_not_mem_enumLines (e : EnumRegistration) :
    ∀ l ∈ Emit.enumLines e, '\n' ∉ l.toList := by
  unfold Emit.enumLines
  split
  · simp [newline_not_mem_literal]
  · simp only [List.forall_mem_cons, List.forall_mem_map]
    refine ⟨by simp [newline_not_mem_literal], ?_⟩
    -- each value is written with its number, and the last one ends the statement
    rintro ⟨⟨name, value⟩, i⟩ -
    have hend : '\n' ∉ (if i == e.values.length - 1 then ";" else "").toList := by
      split <;> decide
    simp only [String.toList_append, List.mem_append, not_or]
    exact ⟨⟨⟨⟨⟨by decide, newline_not_mem_literal name⟩, by decide⟩, by simpa using newline_not_mem_int value⟩, by decide⟩, hend⟩

theorem newline_not_mem_typeLines (hid : '\n' ∉ id.toList) {t : TypeRegistration}
    (hname : '\n' ∉ t.name.toList)
    (hfields : ∀ fs, t.serializer = some fs → ∀ f ∈ fs, '\n' ∉ f.property.toList) :
    ∀ l ∈ Emit.typeLines id t, '\n' ∉ l.toList := by
  unfold Emit.typeLines
  split
  · simp [hname, newline_not_mem_literal, newline_not_mem_decoratorList]
  · next fs hfs =>
    simp only [List.forall_mem_cons, List.forall_mem_append, List.forall_mem_map]
    refine ⟨⟨⟨by simp [hname, newline_not_mem_literal], by decide, by decide, by decide, by simp⟩,
      fun f hf => ?_⟩, by decide, by simp [newline_not_mem_decoratorList], by simp⟩
    -- a field is written through its property's getter, by name when it is an enum
    have hp := hfields fs hfs f hf
    cases f.kind <;>
      simp +decide only [String.toList_append, List.mem_append, toString_string, hid, hname, hp,
        newline_not_mem_literal, Emit.propertyGetter, not_false_eq_true]

theorem newline_not_mem_propertyLine (hid : '\n' ∉ id.toList) {q : PropertyRegistration}
    (hq : '\n' ∉ q.owner.toList ∧ '\n' ∉ q.name.toList) :
    '\n' ∉ (Emit.propertyLine id q).toList := by
  unfold Emit.propertyLine
  have hsetter : '\n' ∉ (if q.readOnly then "nullptr"
      else "&" ++ Emit.propertySetter id q.owner q.name).toList := by
    split
    · decide
    · simp +decide only [String.toList_append, List.mem_append, toString_string, hid, hq,
        Emit.propertySetter, not_false_eq_true]
  simp +decide only [String.toList_append, List.mem_append, toString_string, hid, hq, hsetter,
    newline_not_mem_literal, newline_not_mem_decoratorList, Emit.propertyGetter, not_false_eq_true]

theorem newline_not_mem_passLines (hplan : plan.OneLine) (hid : '\n' ∉ id.toList)
    (pass : RegistrationPass) : ∀ l ∈ Emit.passLines plan id pass, '\n' ∉ l.toList := by
  cases pass with
  | enums =>
    simp only [Emit.passLines, List.forall_mem_flatMap]
    exact fun e _ => newline_not_mem_enumLines e
  | types =>
    simp only [Emit.passLines, List.forall_mem_flatMap]
    exact fun t ht => newline_not_mem_typeLines hid (hplan.types t ht) (hplan.fields t ht)
  | inheritance =>
    simp only [Emit.passLines, List.forall_mem_map]
    intro e _
    simp +decide only [String.toList_append, List.mem_append, newline_not_mem_literal,
      not_false_eq_true]
  | properties =>
    simp only [Emit.passLines, List.forall_mem_map]
    exact fun q hq => newline_not_mem_propertyLine hid
      ⟨(hplan.properties q hq).1, (hplan.properties q hq).2.1⟩

theorem newline_not_mem_passFunction (hplan : plan.OneLine) (hid : '\n' ∉ id.toList)
    (pass : RegistrationPass) : ∀ l ∈ Emit.passFunction plan id pass, '\n' ∉ l.toList := by
  have hheader : '\n' ∉ ("void " ++ pass.functionName id ++ "(Meta::Registry& registry)").toList := by
    cases pass <;> simp +decide only [RegistrationPass.functionName, String.toList_append,
      List.mem_append, toString_string, hid, not_false_eq_true]
  unfold Emit.passFunction
  split
  · simp only [List.forall_mem_cons]
    exact ⟨hheader, by decide, by simp⟩
  · simp only [List.forall_mem_cons, List.forall_mem_append]
    exact ⟨⟨⟨hheader, by decide, by simp⟩, newline_not_mem_passLines hplan hid pass⟩, by decide, by simp⟩

/-- A registration function ends with its closing brace. -/
theorem getLast?_passFunction (pass : RegistrationPass) :
    ∃ l, (Emit.passFunction plan id pass).getLast? = some l ∧ l.toList.getLast? ≠ some '\\' := by
  unfold Emit.passFunction
  split
  · exact ⟨"\x7b (void)registry; \x7d", rfl, by decide⟩
  · exact ⟨"\x7d", by rw [List.getLast?_append]; rfl, by decide⟩

theorem defines_implementation (hplan : plan.OneLine)
    (hid : ∀ c ∈ id.toList, c ≠ '\n' ∧ c ≠ ' ') :
    Defines (Emit.implementation plan id).toList ["_" ++ id ++ "_IMPLEMENTATION"] := by
  have hidn : '\n' ∉ id.toList := fun h => (hid _ h).1 rfl
  have hidb : ' ' ∉ id.toList := fun h => (hid _ h).2 rfl
  have hpasses : RegistrationPass.all.flatMap (Emit.passFunction plan id) =
      Emit.passFunction plan id .enums ++ Emit.passFunction plan id .types ++
        Emit.passFunction plan id .inheritance ++ Emit.passFunction plan id .properties := by
    simp [RegistrationPass.all]
  unfold Emit.implementation
  apply Defines.define
  · simp [hidb]
  · simp only [List.forall_mem_cons, List.forall_mem_append, List.forall_mem_map,
      List.forall_mem_flatMap, List.forall_mem_filter]
    refine ⟨by simp [hidn], ⟨⟨fun t ht => ?_, fun q hq => newline_not_mem_accessors hidn
      (hplan.properties q hq)⟩, fun e he _ => ?_⟩, fun pass _ => newline_not_mem_passFunction hplan hidn pass⟩
    · simp +decide only [String.toList_append, List.mem_append, toString_string, hidn,
        hplan.types t ht, newline_not_mem_literal, Emit.typeGetter, not_false_eq_true]
    · simp +decide only [String.toList_append, List.mem_append, hplan.enums e he, not_false_eq_true]
  · intro l hl
    obtain ⟨last, hlast, hend⟩ := @getLast?_passFunction plan id .properties
    rw [hpasses, ← List.append_assoc, getLast?_cons_append _ _ (by
      intro h; rw [h] at hlast; cases hlast), hlast] at hl
    cases hl
    exact hend

/-! ## The preamble -/

/-- The guard lines define the include guard alone. -/
theorem defines_guardLines (hid : ∀ c ∈ id.toList, c ≠ '\n' ∧ c ≠ ' ') {p : String}
    (hp : '\n' ∉ p.toList) :
    Defines (Emit.guardLines id p).toList ["_META_" ++ Emit.guardFragment p ++ "_" ++ id ++ "_"] := by
  have h1 : ". Do not edit.\n\n" = ". Do not edit." ++ ("\n" ++ ("" ++ "\n")) := by decide
  have h2 : "\"\n" = "\"" ++ "\n" := by decide
  have h3 : "#endif\n" = "#endif" ++ "\n" := by decide
  have h4 : "\n\n" = "" ++ ("\n" ++ ("" ++ "\n")) := by decide
  -- the text line by line, each line followed by its line feed
  have htext : Emit.guardLines id p =
      ("// Generated by reflector from " ++ p ++ ". Do not edit." ++ "\n") ++ (("" ++ "\n") ++
      (("#ifdef " ++ ("_META_" ++ Emit.guardFragment p ++ "_" ++ id ++ "_") ++ "\n") ++
      (("#error \"" ++ p ++ " already included, missing '#pragma once' in " ++ p ++ "\"" ++ "\n") ++
      (("#endif" ++ "\n") ++
      (("#define " ++ ("_META_" ++ Emit.guardFragment p ++ "_" ++ id ++ "_") ++ "" ++ "\n") ++
      ("" ++ "\n")))))) := by
    unfold Emit.guardLines
    simp only [String.append_assoc, h1, h2, h3, h4]
  have hidn : '\n' ∉ id.toList := fun h => (hid _ h).1 rfl
  have hidb : ' ' ∉ id.toList := fun h => (hid _ h).2 rfl
  rw [htext, show ["_META_" ++ Emit.guardFragment p ++ "_" ++ id ++ "_"] = ([] : List String) ++
    ([] ++ ([] ++ ([] ++ ([] ++ (["_META_" ++ Emit.guardFragment p ++ "_" ++ id ++ "_"] ++ []))))) from rfl]
  refine .string_append (Defines.plainLine ?_ ?_ ?_) (.string_append (Defines.plainLine ?_ ?_ ?_)
    (.string_append (Defines.plainLine ?_ ?_ ?_) (.string_append (Defines.plainLine ?_ ?_ ?_)
    (.string_append (Defines.plainLine ?_ ?_ ?_)
    (.string_append (Defines.defineLine ?_ ?_ ?_ ?_) (Defines.plainLine ?_ ?_ ?_))))))
  all_goals simp [hp, hidn, hidb, newline_not_mem_guardFragment, blank_not_mem_guardFragment,
    List.isPrefixOf, List.getLast?_cons, List.getLast?_append]

theorem defines_getters (hplan : plan.OneLine) (hidn : '\n' ∉ id.toList) :
    Defines (if plan.types.isEmpty then ""
      else String.join (plan.types.map fun t => "const Meta::Type* " ++ Emit.typeGetter id t.name ++ "();\n")
        ++ "\n").toList [] := by
  split
  · exact Defines.nil
  · rw [String.toList_append]
    refine Defines.append_lineFeed ?_
    have hnames : plan.types.flatMap (fun _ => ([] : List String)) = [] := by simp
    rw [String.toList_join, List.flatMap_map, List.flatMap_def, ← hnames]
    refine Defines.flatten fun t ht => ?_
    have hline : "();\n" = "();" ++ "\n" := by decide
    simp only [hline, ← String.append_assoc]
    refine Defines.plainLine ?_ ?_ ?_
    all_goals simp [hidn, hplan.types t ht, Emit.typeGetter, List.isPrefixOf, List.getLast?_cons,
      List.getLast?_append]

/-- The preamble defines the include guard and `CURRENT_FILE_ID`. -/
theorem defines_preamble (hplan : plan.OneLine)
    (hid : ∀ c ∈ id.toList, c ≠ '\n' ∧ c ≠ ' ' ∧ c ≠ '\\') {p : String} (hp : '\n' ∉ p.toList) :
    Defines (Emit.preamble plan id p).toList
      ["_META_" ++ Emit.guardFragment p ++ "_" ++ id ++ "_", "CURRENT_FILE_ID"] := by
  have h1 : "#undef CURRENT_FILE_ID\n" = "#undef CURRENT_FILE_ID" ++ "\n" := by decide
  have h2 : FileId.definePrefix = "#define " ++ ("CURRENT_FILE_ID" ++ " ") := by decide
  have h3 : "\n\n" = "\n" ++ ("" ++ "\n") := by decide
  have htext : Emit.preamble plan id p = Emit.guardLines id p ++ (("#undef CURRENT_FILE_ID" ++ "\n") ++
      (("#define " ++ "CURRENT_FILE_ID" ++ (" " ++ id) ++ "\n") ++ (("" ++ "\n") ++
      (if plan.types.isEmpty then ""
        else String.join (plan.types.map fun t =>
          "const Meta::Type* " ++ Emit.typeGetter id t.name ++ "();\n") ++ "\n")))) := by
    unfold Emit.preamble
    simp only [String.append_assoc, h1, h2, h3]
  have hidn : '\n' ∉ id.toList := fun h => (hid _ h).1 rfl
  -- the id line ends with the id's last character, or with the blank before an empty id
  have hidl : id.toList.getLast?.getD ' ' ≠ '\\' := by
    cases h : id.toList.getLast? with
    | none => decide
    | some c => exact (hid c (List.mem_of_getLast? h)).2.2
  rw [htext, show ["_META_" ++ Emit.guardFragment p ++ "_" ++ id ++ "_", "CURRENT_FILE_ID"] =
    ["_META_" ++ Emit.guardFragment p ++ "_" ++ id ++ "_"] ++ ([] ++ (["CURRENT_FILE_ID"] ++ ([] ++ [])))
    from rfl]
  refine .string_append (defines_guardLines (fun c hc => ⟨(hid c hc).1, (hid c hc).2.1⟩) hp)
    (.string_append (Defines.plainLine ?_ ?_ ?_) (.string_append (Defines.defineLine ?_ ?_ ?_ ?_)
    (.string_append (Defines.plainLine ?_ ?_ ?_) (defines_getters hplan hidn))))
  all_goals simp [hidn, hidl, List.isPrefixOf, List.getLast?_cons]

/-! ## The whole header -/

theorem defines_bodies (hplan : plan.OneLine) (hid : ∀ c ∈ id.toList, c ≠ '\n' ∧ c ≠ ' ') :
    Defines (Emit.bodies plan id).toList
      (plan.types.filterMap fun t => t.bodyLine.map (bodyMacroName id)) := by
  unfold Emit.bodies
  -- the body macros of any types of the plan, one after the other
  suffices h : ∀ ts : List TypeRegistration, (∀ t ∈ ts, t ∈ plan.types) →
      Defines (String.join (ts.filterMap fun t =>
        t.bodyLine.map fun line => Emit.bodyMacro plan id t line ++ "\n")).toList
        (ts.filterMap fun t => t.bodyLine.map (bodyMacroName id)) from h _ fun _ ht => ht
  intro ts hts
  induction ts with
  | nil => exact Defines.nil
  | cons t ts ih =>
    have ih := ih fun t' ht' => hts t' (List.mem_cons_of_mem _ ht')
    cases hl : t.bodyLine with
    | none => simpa [hl] using ih
    | some line =>
      simp only [List.filterMap_cons, hl, Option.map_some, String.join_cons]
      exact (defines_bodyMacro hplan hid (hts t (List.mem_cons_self ..)) line).string_append ih

/-- A header is laid out in logical lines that read as written and define `headerMacros`. -/
theorem defines_header (hplan : plan.OneLine)
    (hid : ∀ c ∈ id.toList, c ≠ '\n' ∧ c ≠ ' ' ∧ c ≠ '\\') {p : String} (hp : '\n' ∉ p.toList) :
    Defines (Emit.preamble plan id p ++ Emit.bodies plan id ++ Emit.implementation plan id).toList
      (headerMacros plan id p) :=
  have hid' : ∀ c ∈ id.toList, c ≠ '\n' ∧ c ≠ ' ' := fun c hc => ⟨(hid c hc).1, (hid c hc).2.1⟩
  ((defines_preamble hplan hid hp).string_append (defines_bodies hplan hid')).string_append
    (defines_implementation hplan hid')

end Macros

/-! ## Distinct names -/

/-- Body macro names tell their lines apart. -/
theorem bodyMacroName_injective (id : String) : Function.Injective (bodyMacroName id) := by
  intro a b h
  have hdigits : Nat.toDigits 10 a = Nat.toDigits 10 b := by
    have := congrArg String.toList h
    simpa [bodyMacroName] using this
  rw [← Nat.ofDigitChars_ten_toDigits (n := a), hdigits, Nat.ofDigitChars_ten_toDigits]

/-- Names that end differently are different. -/
theorem not_mem_of_getLast? {s : String} {L : List String}
    (h : ∀ t ∈ L, t.toList.getLast? ≠ s.toList.getLast?) : s ∉ L :=
  fun hs => h s hs rfl

theorem headerMacros_nodup_iff (plan : RegistrationPlan) (id p : String) :
    (headerMacros plan id p).Nodup ↔ (plan.types.filterMap (·.bodyLine)).Nodup := by
  have hbody : ∀ n ∈ plan.types.filterMap (fun t => t.bodyLine.map (bodyMacroName id)),
      n.toList.getLast? = some 'Y' := by
    intro n hn
    obtain ⟨t, -, ht⟩ := List.mem_filterMap.1 hn
    obtain ⟨line, -, rfl⟩ := Option.map_eq_some_iff.1 ht
    simp [bodyMacroName, List.getLast?_cons, List.getLast?_append]
  have hnames : plan.types.filterMap (fun t => t.bodyLine.map (bodyMacroName id)) =
      (plan.types.filterMap (·.bodyLine)).map (bodyMacroName id) := by
    rw [List.map_filterMap]
  have hguard : ("_META_" ++ Emit.guardFragment p ++ "_" ++ id ++ "_").toList.getLast? = some '_' := by
    simp [List.getLast?_cons, List.getLast?_append]
  have himpl : ("_" ++ id ++ "_IMPLEMENTATION").toList.getLast? = some 'N' := by
    simp [List.getLast?_cons, List.getLast?_append]
  have hfile : "CURRENT_FILE_ID".toList.getLast? = some 'D' := by decide
  -- the guard, `CURRENT_FILE_ID`, the body macros and the implementation end in `_`, `D`, `Y`, `N`
  have hguard_not_mem : "_META_" ++ Emit.guardFragment p ++ "_" ++ id ++ "_" ∉ "CURRENT_FILE_ID" ::
      (plan.types.filterMap (fun t => t.bodyLine.map (bodyMacroName id)) ++
        ["_" ++ id ++ "_IMPLEMENTATION"]) := by
    refine not_mem_of_getLast? fun n hn => ?_
    simp only [List.mem_cons, List.mem_append, List.not_mem_nil, or_false] at hn
    rcases hn with rfl | hn | rfl
    · rw [hfile, hguard]; decide
    · rw [hbody n hn, hguard]; decide
    · rw [himpl, hguard]; decide
  have hfile_not_mem : "CURRENT_FILE_ID" ∉
      plan.types.filterMap (fun t => t.bodyLine.map (bodyMacroName id)) ++
        ["_" ++ id ++ "_IMPLEMENTATION"] := by
    refine not_mem_of_getLast? fun n hn => ?_
    simp only [List.mem_append, List.mem_singleton] at hn
    rcases hn with hn | rfl
    · rw [hbody n hn, hfile]; decide
    · rw [himpl, hfile]; decide
  have himpl_not_mem : "_" ++ id ++ "_IMPLEMENTATION" ∉
      plan.types.filterMap (fun t => t.bodyLine.map (bodyMacroName id)) :=
    not_mem_of_getLast? fun n hn => by rw [hbody n hn, himpl]; decide
  simp only [headerMacros, List.cons_append, List.nil_append]
  rw [List.nodup_cons, List.nodup_cons, List.nodup_append, hnames,
    List.nodup_map_iff (bodyMacroName_injective id)]
  rw [hnames] at hguard_not_mem hfile_not_mem himpl_not_mem
  refine ⟨fun h => h.2.2.1, fun h => ⟨hguard_not_mem, hfile_not_mem, h, List.nodup_singleton _, ?_⟩⟩
  intro a ha b hb
  rw [List.mem_singleton.1 hb]
  rintro rfl
  exact himpl_not_mem ha

/-! ## Headers of parsed sources -/

theorem RegistrationPlan.bodyLines_ofDecls (d : FileDecls) :
    (ofDecls d).types.filterMap (·.bodyLine) = d.records.filterMap (·.bodyLine) := by
  simp [ofDecls, List.filterMap_map]

/-- The header generated from a parsed source is laid out in logical lines that read as written
and define `headerMacros`, when the include path and the property types hold no line feed. -/
theorem defines_emitHeader (source path : String) {id : FileId} {p : String}
    (hid : FileId.parse id.text = .ok id) (hp : '\n' ∉ p.toList)
    (htypes : ∀ r ∈ (parseHeader source path).decls.records, ∀ q ∈ r.properties,
      '\n' ∉ q.type.toList) :
    Defines (emitHeader (parseHeader source path).decls id p).contents.toList
      (headerMacros (RegistrationPlan.ofDecls (parseHeader source path).decls) id.text p) := by
  have hchars := FileId.mem_of_parse_eq_ok hid
  -- the parser takes names from identifier tokens, which hold no line feed
  have hnames : (parseHeader source path).decls.NamesAll fun s => '\n' ∉ s.toList :=
    (isNameChar_of_parseHeader source path).mono fun s hs hn => absurd (hs '\n' hn) (by decide)
  exact defines_header (RegistrationPlan.oneLine_ofDecls hnames htypes)
    (fun c hc => ne_of_idChar (hchars c hc)) hp

theorem emitHeader_macros_read_as_written (source path : String) {id : FileId} {p : String}
    (hid : FileId.parse id.text = .ok id) (hp : '\n' ∉ p.toList)
    (htypes : ∀ r ∈ (parseHeader source path).decls.records, ∀ q ∈ r.properties,
      '\n' ∉ q.type.toList) :
    (defined (emitHeader (parseHeader source path).decls id p).contents).map Prod.fst =
        headerMacros (RegistrationPlan.ofDecls (parseHeader source path).decls) id.text p ∧
      (((defined (emitHeader (parseHeader source path).decls id p).contents).map Prod.fst).Nodup ↔
        ((parseHeader source path).decls.records.filterMap (·.bodyLine)).Nodup) ∧
      (∀ m ∈ defined (emitHeader (parseHeader source path).decls id p).contents,
        ∀ l ∈ m.2.dropLast, [' ', '\\'] <:+ l) ∧
      ∀ g ∈ logicalLines ((emitHeader (parseHeader source path).decls id p).contents.toList.splitOn '\n'),
        2 ≤ g.length → (definedName? g).isSome := by
  obtain ⟨hread, hcont, hjoin⟩ := (defines_emitHeader source path hid hp htypes).read
  refine ⟨hread, ?_, hcont, hjoin⟩
  rw [hread, headerMacros_nodup_iff, RegistrationPlan.bodyLines_ofDecls]

theorem emitHeader_macros_read_as_written_oneRecord :
    FileId.parse "0123456a_0123_0123_0123_0123456789ab" =
        .ok ⟨"0123456a_0123_0123_0123_0123456789ab"⟩ ∧
      '\n' ∉ "A.h".toList ∧
      (∀ r ∈ (parseHeader "GCLASS() class A \x7b GENERATED_BODY() GPROPERTY() int x; \x7d;" "A.h").decls.records,
        ∀ q ∈ r.properties, '\n' ∉ q.type.toList) ∧
      (defined (emitHeader (parseHeader "GCLASS() class A \x7b GENERATED_BODY() GPROPERTY() int x; \x7d;" "A.h").decls
        ⟨"0123456a_0123_0123_0123_0123456789ab"⟩ "A.h").contents).map Prod.fst =
        ["_META_A_h_0123456a_0123_0123_0123_0123456789ab_", "CURRENT_FILE_ID",
          "_0123456a_0123_0123_0123_0123456789ab_1_GENERATED_BODY",
          "_0123456a_0123_0123_0123_0123456789ab_IMPLEMENTATION"] := by
  have hid : FileId.parse "0123456a_0123_0123_0123_0123456789ab" =
      .ok ⟨"0123456a_0123_0123_0123_0123456789ab"⟩ := rfl
  have hp : '\n' ∉ "A.h".toList := by decide
  have htypes : ∀ r ∈ (parseHeader "GCLASS() class A \x7b GENERATED_BODY() GPROPERTY() int x; \x7d;" "A.h").decls.records,
      ∀ q ∈ r.properties, '\n' ∉ q.type.toList := by decide +kernel
  refine ⟨hid, hp, htypes, ?_⟩
  rw [(emitHeader_macros_read_as_written _ _ hid hp htypes).1]
  decide +kernel

/-- Two records anchored on one line get body macros of one name. -/
theorem emitHeader_bodies_share_a_line :
    (parseHeader "GCLASS() class A \x7b GENERATED_BODY() \x7d; GCLASS() class B \x7b GENERATED_BODY() \x7d;"
        "test.h").diagnostics.hasErrors = false ∧
      ¬((defined (emitHeader (parseHeader
        "GCLASS() class A \x7b GENERATED_BODY() \x7d; GCLASS() class B \x7b GENERATED_BODY() \x7d;" "test.h").decls
        ⟨"0123456a_0123_0123_0123_0123456789ab"⟩ "test.h").contents).map Prod.fst).Nodup := by
  have hparse : (parseHeader "GCLASS() class A \x7b GENERATED_BODY() \x7d; GCLASS() class B \x7b GENERATED_BODY() \x7d;"
        "test.h").diagnostics.hasErrors = false ∧
      (parseHeader "GCLASS() class A \x7b GENERATED_BODY() \x7d; GCLASS() class B \x7b GENERATED_BODY() \x7d;"
        "test.h").decls.records.filterMap (·.bodyLine) = [1, 1] ∧
      ∀ r ∈ (parseHeader "GCLASS() class A \x7b GENERATED_BODY() \x7d; GCLASS() class B \x7b GENERATED_BODY() \x7d;"
        "test.h").decls.records, ∀ q ∈ r.properties, '\n' ∉ q.type.toList := by
    decide +kernel
  refine ⟨hparse.1, ?_⟩
  rw [(defines_emitHeader _ _ rfl (by decide) hparse.2.2).read.1, headerMacros_nodup_iff,
    RegistrationPlan.bodyLines_ofDecls, hparse.2.1]
  decide

end TypeReflection
