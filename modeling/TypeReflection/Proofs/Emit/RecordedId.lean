import TypeReflection.Proofs.Text.FirstOccurrence
import TypeReflection.Emit.Header
import TypeReflection.Parse.File

/-!
# Reading back the id a generated header records

A generated header records its file id on the line `#define CURRENT_FILE_ID <id>`, and
`FileId.fromGenerated` reads the id back from the text after the first occurrence of
`#define CURRENT_FILE_ID `. That line comes after the opening comment and the include guard,
both of which quote the include path. Nothing else in them can begin the record: the guard
macro is made of letters, digits and underscores, and the fixed words differ from the record
before either ends. So the id comes back whenever the include path cannot begin a record
either, which is what `fromGenerated_emitHeader` assumes: the include path, followed by the space
that follows it in the `#error` line, does not contain the record's prefix.

An include path that does contain it, such as `#define CURRENT_FILE_ID x`, makes the header
record a second, false id in its opening comment, and that one is read back
(`fromGenerated_emitHeader_define_in_path`).
-/

set_option autoImplicit false

namespace TypeReflection

open Text

/-! ## The characters of a valid id -/

namespace FileId

theorem firstFault_cons_eq_none {c : Char} {cs : List Char} {i : Nat} :
    firstFault (c :: cs) i = none ↔
      (if separatorPositions.contains i then c == '_' else isHexDigit c) = true ∧
        firstFault cs (i + 1) = none := by
  simp only [firstFault]
  split <;> split <;> simp_all

/-- Every character that `firstFault` lets pass is a hex digit or an underscore. -/
theorem firstFault_eq_none {cs : List Char} {i : Nat} (h : firstFault cs i = none) :
    ∀ c ∈ cs, isHexDigit c = true ∨ c = '_' := by
  induction cs generalizing i with
  | nil => simp
  | cons c cs ih =>
    obtain ⟨hok, hrest⟩ := firstFault_cons_eq_none.1 h
    intro d hd
    rcases List.mem_cons.1 hd with rfl | hd
    · split at hok
      · exact .inr (by simpa using hok)
      · exact .inl hok
    · exact ih hrest d hd

theorem mem_of_parse_eq_ok {id : FileId} (h : parse id.text = .ok id) :
    ∀ c ∈ id.text.toList, isHexDigit c = true ∨ c = '_' := by
  dsimp only [parse] at h
  split at h
  · cases h
  · split at h
    · cases h
    · next hf => exact firstFault_eq_none hf

/-- The characters of a valid id are digits, the letters `a` to `f`, and underscores. -/
theorem toNat_of_idChar {c : Char} (h : isHexDigit c = true ∨ c = '_') :
    (48 ≤ c.toNat ∧ c.toNat ≤ 57) ∨ (97 ≤ c.toNat ∧ c.toNat ≤ 102) ∨ c.toNat = 95 := by
  rcases h with h | rfl
  · have : (48 ≤ c.toNat ∧ c.toNat ≤ 57) ∨ (97 ≤ c.toNat ∧ c.toNat ≤ 102) := by
      simpa [isHexDigit, Char.isDigit, Char.le_def, UInt32.le_iff_toNat_le] using h
    omega
  · decide

/-- An id character ends no white space run and begins no preprocessor line. -/
theorem isWhiteSpace_eq_false_of_idChar {c : Char} (h : isHexDigit c = true ∨ c = '_') :
    Text.isWhiteSpace c = false ∧ c ≠ '#' := by
  have hn := toNat_of_idChar h
  refine ⟨?_, fun hc => ?_⟩
  · simp only [Text.isWhiteSpace, Bool.or_eq_false_iff, Bool.and_eq_false_iff,
      decide_eq_false_iff_not, beq_eq_false_iff_ne]
    omega
  · subst hc
    revert hn
    decide

theorem definePrefix_toList : definePrefix.toList = '#' :: "define CURRENT_FILE_ID ".toList := rfl

/-- A text without `#` holds no start of the id record. -/
theorem noStartIn_definePrefix {s : List Char} (h : ∀ c ∈ s, c ≠ '#') (rest : List Char) :
    NoStartIn definePrefix.toList s rest :=
  definePrefix_toList ▸ noStartIn_of_forall_ne h rest

end FileId

/-! ## The text before the id record -/

theorem Emit.guardFragment_ne_hash (p : String) : ∀ c ∈ (Emit.guardFragment p).toList, c ≠ '#' := by
  intro c hc
  simp only [Emit.guardFragment, String.toList_ofList, List.mem_map] at hc
  obtain ⟨d, -, rfl⟩ := hc
  split
  · next hd =>
    rintro rfl
    exact absurd hd (by decide)
  · decide

theorem emitHeader_contents (decls : FileDecls) (id : FileId) (p : String) :
    (emitHeader decls id p).contents =
      Emit.preamble (RegistrationPlan.ofDecls decls) id.text p ++
        Emit.bodies (RegistrationPlan.ofDecls decls) id.text ++
          Emit.implementation (RegistrationPlan.ofDecls decls) id.text := rfl

/-- The preamble opens with the guard lines and then records the id. -/
theorem Emit.preamble_eq (plan : RegistrationPlan) (id p : String) : ∃ getters,
    Emit.preamble plan id p = Emit.guardLines id p ++ "#undef CURRENT_FILE_ID\n" ++
      FileId.definePrefix ++ id ++ "\n\n" ++ getters := ⟨_, rfl⟩

open FileId in
/-- No start of the id record lies in the opening comment or the include guard, provided the
include path, followed by a space, holds none. -/
theorem Emit.guardLines_noStartIn {id p : String} (hid : ∀ c ∈ id.toList, c ≠ '#')
    (hp : NoStartIn definePrefix.toList p.toList [' ']) (rest : List Char) :
    NoStartIn definePrefix.toList (Emit.guardLines id p).toList rest := by
  have hp0 : NoStartIn definePrefix.toList p.toList [] := hp.of_prefix List.nil_prefix
  have hgf := Emit.guardFragment_ne_hash p
  unfold Emit.guardLines
  simp only [String.toList_append, List.append_assoc]
  repeat rw [noStartIn_append]
  simp only [List.append_assoc]
  -- One goal per piece of the two lines. The include path is followed by `.`, by ` a` and by
  -- `"`, none of which can continue a record; `#define ` would begin one, and the `_META_` after
  -- it is what rules that out. Every other fixed piece disagrees with the record on its own.
  refine ⟨?_, hp0.append_of_take_eq rfl (by decide) _, ?_, ?_, ?_, noStartIn_definePrefix hgf _, ?_,
    noStartIn_definePrefix hid _, ?_, ?_, ?_, hp.append_of_take_eq rfl (by decide) _, ?_,
    hp0.append_of_take_eq rfl (by decide) _, ?_, ?_, Disagrees.noStartIn_append (by decide) _, ?_,
    noStartIn_definePrefix hgf _, ?_, noStartIn_definePrefix hid _, ?_, ?_⟩
  all_goals exact Disagrees.noStartIn (by decide) _

open FileId in
/-- The first start of the id record in a generated header is the record itself. -/
theorem afterFirst_emitHeader (decls : FileDecls) {id : FileId} {p : String}
    (hid : ∀ c ∈ id.text.toList, c ≠ '#') (hp : NoStartIn definePrefix.toList p.toList [' ']) :
    ∃ rest, afterFirst definePrefix.toList (emitHeader decls id p).contents.toList =
      some (id.text.toList ++ '\n' :: rest) := by
  obtain ⟨getters, hpre⟩ := Emit.preamble_eq (RegistrationPlan.ofDecls decls) id.text p
  rw [emitHeader_contents, hpre]
  simp only [String.toList_append, List.append_assoc]
  rw [afterFirst_append_of_noStartIn (Emit.guardLines_noStartIn hid hp _),
    afterFirst_append_of_noStartIn (Disagrees.noStartIn (by decide) _), afterFirst_append_self]
  exact ⟨_, rfl⟩

/-! ## Reading the id back -/

/-- A text that, followed by a space, does not contain the record's prefix holds no start of it
before that space. -/
theorem noStartIn_of_occursIn_eq_false {p : String}
    (hp : Text.occursIn FileId.definePrefix (p ++ " ") = false) :
    NoStartIn FileId.definePrefix.toList p.toList [' '] := by
  have hnone : afterFirst FileId.definePrefix.toList (p ++ " ").toList = none := by
    simpa [Text.occursIn] using hp
  rw [afterFirst_eq_none_iff (by decide), String.toList_append] at hnone
  exact (noStartIn_append.1 hnone).1

/-- A text whose first record goes on with a valid id and a line break gives back that id. -/
theorem fromGenerated_of_afterFirst {c : String} {id : FileId} (hid : FileId.parse id.text = .ok id)
    {rest : List Char}
    (h : afterFirst FileId.definePrefix.toList c.toList = some (id.text.toList ++ '\n' :: rest)) :
    FileId.fromGenerated c = .ok id := by
  have hchars := FileId.mem_of_parse_eq_ok hid
  have hwhite : Text.isWhiteSpace '\n' = true := by decide
  -- the id is read up to the line break that ends the record
  simp only [FileId.fromGenerated, h]
  rw [List.takeWhile_append_of_pos, List.takeWhile_cons]
  · simp [hwhite, hid]
  · intro c hc
    simp [(FileId.isWhiteSpace_eq_false_of_idChar (hchars c hc)).1]

/-- A generated header gives back the valid id it was generated with, whatever its declarations,
as long as its include path, followed by a space, does not contain `#define CURRENT_FILE_ID `. -/
theorem fromGenerated_emitHeader (decls : FileDecls) {id : FileId} {p : String}
    (hid : FileId.parse id.text = .ok id)
    (hp : Text.occursIn FileId.definePrefix (p ++ " ") = false) :
    FileId.fromGenerated (emitHeader decls id p).contents = .ok id := by
  have hchars := FileId.mem_of_parse_eq_ok hid
  obtain ⟨rest, hrest⟩ := afterFirst_emitHeader decls
    (fun c hc => (FileId.isWhiteSpace_eq_false_of_idChar (hchars c hc)).2)
    (noStartIn_of_occursIn_eq_false hp)
  exact fromGenerated_of_afterFirst hid hrest

/-- A source with a decorated class: a property's decorator string holds the words that begin the
id record. -/
def decoratedHeader : String :=
  "GCLASS(Category(Gameplay)) class Foo \x7b GENERATED_BODY() " ++
    "GPROPERTY(Tooltip(\"#define CURRENT_FILE_ID x\")) int x; \x7d;"

/-- The header generated for `decoratedHeader` at a plain include path gives back its id: the
decorator strings are written after the record, so they cannot hide it. -/
theorem fromGenerated_emitHeader_decorated :
    (parseHeader decoratedHeader "Game/Foo.h").decls.records.map
        (fun r => (r.name, r.decorators, r.properties.map (·.decorators))) =
      [("Foo", ⟨[⟨"Category", ["Gameplay"]⟩]⟩,
        [⟨[⟨"Tooltip", ["#define CURRENT_FILE_ID x"]⟩]⟩])] ∧
      FileId.parse "0123456a_0123_0123_0123_0123456789ab" =
        .ok ⟨"0123456a_0123_0123_0123_0123456789ab"⟩ ∧
      Text.occursIn FileId.definePrefix ("Game/Foo.h" ++ " ") = false ∧
      FileId.fromGenerated (emitHeader (parseHeader decoratedHeader "Game/Foo.h").decls
        ⟨"0123456a_0123_0123_0123_0123456789ab"⟩ "Game/Foo.h").contents =
        .ok ⟨"0123456a_0123_0123_0123_0123456789ab"⟩ := by
  have hdecls : (parseHeader decoratedHeader "Game/Foo.h").decls.records.map
        (fun r => (r.name, r.decorators, r.properties.map (·.decorators))) =
      [("Foo", ⟨[⟨"Category", ["Gameplay"]⟩]⟩,
        [⟨[⟨"Tooltip", ["#define CURRENT_FILE_ID x"]⟩]⟩])] := by
    decide +kernel
  have hid : FileId.parse "0123456a_0123_0123_0123_0123456789ab" =
      .ok ⟨"0123456a_0123_0123_0123_0123456789ab"⟩ := rfl
  have hp : Text.occursIn FileId.definePrefix ("Game/Foo.h" ++ " ") = false := by decide
  exact ⟨hdecls, hid, hp, fromGenerated_emitHeader _ hid hp⟩

/-- The search for the id record starts inside the include path: nothing in the words before it
can begin a record. -/
theorem afterFirst_emitHeader_includePath (decls : FileDecls) (id : FileId) (p : String) :
    ∃ rest, afterFirst FileId.definePrefix.toList (emitHeader decls id p).contents.toList =
      afterFirst FileId.definePrefix.toList (p.toList ++ (". Do not edit.\n\n".toList ++ rest)) := by
  obtain ⟨getters, hpre⟩ := Emit.preamble_eq (RegistrationPlan.ofDecls decls) id.text p
  rw [emitHeader_contents, hpre]
  unfold Emit.guardLines
  simp only [String.toList_append, List.append_assoc]
  rw [afterFirst_append_of_noStartIn (Disagrees.noStartIn (by decide) _)]
  exact ⟨_, rfl⟩

/-- An include path that holds a record of its own hides the real one: the text read back from
the header of an empty source is `x.`, cut at the space after the full stop of the opening comment,
and it is no id. -/
theorem fromGenerated_emitHeader_define_in_path :
    FileId.parse "0123456a_0123_0123_0123_0123456789ab" =
        .ok ⟨"0123456a_0123_0123_0123_0123456789ab"⟩ ∧
      FileId.fromGenerated (emitHeader (parseHeader "" "test.h").decls
        ⟨"0123456a_0123_0123_0123_0123456789ab"⟩ "#define CURRENT_FILE_ID x").contents =
        .error (.invalidLength 2) := by
  refine ⟨rfl, ?_⟩
  obtain ⟨rest, hrest⟩ := afterFirst_emitHeader_includePath (parseHeader "" "test.h").decls
    ⟨"0123456a_0123_0123_0123_0123456789ab"⟩ "#define CURRENT_FILE_ID x"
  have hpath : "#define CURRENT_FILE_ID x".toList = FileId.definePrefix.toList ++ ['x'] := rfl
  have hnext : ". Do not edit.\n\n".toList = '.' :: ' ' :: "Do not edit.\n\n".toList := rfl
  rw [hpath, List.append_assoc, afterFirst_append_self, hnext] at hrest
  have hx : Text.isWhiteSpace 'x' = false := by decide
  have hdot : Text.isWhiteSpace '.' = false := by decide
  have hspace : Text.isWhiteSpace ' ' = true := by decide
  -- rewrite the reading first: unfolding it inside one simp call leaves the kernel a proof that
  -- evaluates the whole header
  rw [FileId.fromGenerated, hrest]
  simp only [List.cons_append, List.nil_append, List.takeWhile_cons, hx, hdot, hspace,
    Bool.not_false, Bool.not_true, Bool.false_eq_true, if_true, if_false]
  rfl

end TypeReflection
