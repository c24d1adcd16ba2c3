import TypeReflection.Proofs.Parse.Safety
import TypeReflection.Proofs.Token.Scan

/-!
# Where the names of a parse come from

Every name the parser gives a declaration is the text of one identifier token: a record's name
is the last of the names after its keyword, a property's the name before its declarator's end,
an enum's the last name after `enum`. So every name of a parse is spelled by an identifier of
the header (`parseHeader_namedIn`), and is made of name characters only: no name holds a
blank or a line break (`isNameChar_of_parseHeader`).

The proof follows the parser's structure. `Yields P p` says that whatever a successful run of
`p` gives satisfies `P`; it is proved for each step from its parts, as `Grows` is.
-/

set_option autoImplicit false

namespace TypeReflection

open Scan

/-- `name` is the text of an identifier token of the input. -/
def ParseInput.Spells (input : ParseInput) (name : String) : Prop :=
  ∃ t ∈ input.tokens.toList, t.kind = .identifier ∧ t.text = name

/-- The record's name and its properties' names satisfy `P`. -/
def RecordDecl.NamesAll (P : String → Prop) (r : RecordDecl) : Prop :=
  P r.name ∧ ∀ q ∈ r.properties, P q.name

/-- The name of every record, of every property of a record, and of every enum satisfies `P`. -/
def FileDecls.NamesAll (P : String → Prop) (d : FileDecls) : Prop :=
  (∀ r ∈ d.records, r.NamesAll P) ∧ ∀ e ∈ d.enums, P e.name

theorem FileDecls.NamesAll.mono {P Q : String → Prop} {d : FileDecls} (h : d.NamesAll P)
    (hPQ : ∀ name, P name → Q name) : d.NamesAll Q :=
  ⟨fun r hr => ⟨hPQ _ (h.1 r hr).1, fun q hq => hPQ _ ((h.1 r hr).2 q hq)⟩,
    fun e he => hPQ _ (h.2 e he)⟩

namespace Parser

variable {α β : Type}

/-- Every value that a successful run of `p` gives satisfies `P` of the input it read. -/
def Yields (P : ParseInput → α → Prop) (p : Parser α) : Prop :=
  ∀ input s a s', p.runOn input s = (.ok a, s') → P input a

namespace Yields

variable {P Q : ParseInput → α → Prop}

theorem mono {p : Parser α} (h : Yields P p) (hPQ : ∀ input a, P input a → Q input a) :
    Yields Q p :=
  fun input s a s' hrun => hPQ input a (h input s a s' hrun)

theorem pure {a : α} (h : ∀ input, P input a) : Yields P (Pure.pure a : Parser α) := by
  intro input s b s' hrun
  cases hrun
  exact h input

theorem throw (e : ParseError) : Yields P (MonadExcept.throw e : Parser α) := by
  intro input s b s' hrun
  cases hrun

/-- A bind gives what its second step gives, which may rely on what the first step gave. -/
theorem bind {R : ParseInput → β → Prop} {p : Parser α} {f : α → Parser β} (hp : Yields P p)
    (hf : ∀ a, Yields (fun input b => P input a → R input b) (f a)) : Yields R (p >>= f) := by
  intro input s b s' hrun
  rw [runOn_bind] at hrun
  rcases hp₁ : p.runOn input s with ⟨_ | a, s₁⟩
  · rw [hp₁] at hrun
    cases hrun
  · rw [hp₁] at hrun
    exact hf a input s₁ b s' hrun (hp input s a s₁ hp₁)

/-- A bind whose second step gives what is wanted, whatever the first step gave. -/
theorem bind_any {R : ParseInput → β → Prop} {p : Parser α} {f : α → Parser β}
    (hf : ∀ a, Yields R (f a)) : Yields R (p >>= f) :=
  bind (P := fun _ _ => True) (fun _ _ _ _ _ => trivial) fun a => (hf a).mono fun _ _ h _ => h

theorem tryCatch {p : Parser α} {h : ParseError → Parser α} (hp : Yields P p)
    (hh : ∀ e, Yields P (h e)) : Yields P (tryCatch p h) := by
  intro input s b s' hrun
  rw [runOn_tryCatch] at hrun
  rcases hp₁ : p.runOn input s with ⟨e | a, s₁⟩
  · rw [hp₁] at hrun
    exact hh e input s₁ b s' hrun
  · rw [hp₁] at hrun
    exact hp input s b s' (hp₁.trans hrun)

theorem ite {c : Prop} {_ : Decidable c} {p q : Parser α} (hp : Yields P p) (hq : Yields P q) :
    Yields P (if c then p else q) := by
  split
  · exact hp
  · exact hq

theorem fail (expected : String) : Yields P (Parser.fail expected : Parser α) :=
  bind_any fun _ => throw _

/-- What follows a failure is never reached. -/
theorem fail_bind {R : ParseInput → β → Prop} (expected : String) (f : α → Parser β) :
    Yields R (Parser.fail expected >>= f) :=
  bind (P := fun _ _ => False) (fail _) fun _ _ _ _ _ _ h => h.elim

end Yields

/-! ## The reads that name a declaration -/

theorem spells_of_mem {input : ParseInput} {t : Token} (ht : t ∈ input.tokens.toList)
    (hk : t.kind = .identifier) : input.Spells t.text :=
  ⟨t, ht, hk, rfl⟩

/-- A token of a slice of the input is a token of the input. -/
theorem mem_of_mem_extract {input : ParseInput} {t : Token} {lo hi : Nat}
    (ht : t ∈ (input.tokens.extract lo hi).toList) : t ∈ input.tokens.toList := by
  rw [Array.toList_extract, List.extract_eq_take_drop] at ht
  exact List.mem_of_mem_drop (List.mem_of_mem_take ht)

/-- The last of a run of identifiers read from the cursor is an identifier of the input. -/
theorem spells_of_getLast {input : ParseInput} {start : Nat} {names : List Token} {t : Token}
    (hnames : List.Sublist names ((input.fromIndex start).takeWhile (·.kind == .identifier)))
    (ht : names.getLast? = some t) : input.Spells t.text := by
  have hmem : t ∈ (input.fromIndex start).takeWhile (·.kind == .identifier) :=
    hnames.subset (List.mem_of_getLast? ht)
  refine spells_of_mem (List.mem_of_mem_drop (List.takeWhile_sublist _ |>.subset hmem)) ?_
  simpa using List.all_eq_true.1 List.all_takeWhile t hmem

theorem read_yields : Yields (fun input i => i = input) (read : Parser ParseInput) := by
  intro input s a s' hrun
  cases hrun
  rfl

theorem property_yields : Yields (fun input q => input.Spells q.name) property := by
  unfold property
  refine Yields.bind_any fun start => Yields.bind read_yields fun input => ?_
  split
  · exact Yields.bind_any fun _ => Yields.fail _
  · next stop boundary _ =>
    refine Yields.bind_any fun _ => ?_
    split
    next index groups _ =>
    dsimp only
    split
    · exact Yields.throw _
    · next nameToken hname =>
      -- the name is the identifier just before the declarator's end
      have hspells : input.Spells nameToken.text := by
        split at hname
        · obtain ⟨hget, hk⟩ := Option.filter_eq_some_iff.1 hname
          exact spells_of_mem (mem_of_mem_extract (Array.mem_toList_iff.2 (Array.mem_of_getElem? hget)))
            (by simpa using hk)
        · cases hname
      refine Yields.ite (Yields.bind_any fun _ => Yields.pure ?_) (Yields.pure ?_) <;>
        rintro _ rfl <;> exact hspells

/-- A member read that gives a member gives what its read gave. -/
theorem member_yields {P : ParseInput → α → Prop} {read : Parser α} (h : Yields P read) :
    Yields (fun input m => ∀ x, m = some x → P input x.2) (member read) :=
  .tryCatch (.bind_any fun _ => .bind h fun _ => .pure fun _ hm x hx => by cases hx; exact hm)
    fun _ => .bind_any fun _ => .pure fun _ x hx => by cases hx

/-- The body loop keeps the names of the record it was given, and every property it adds is
named in the input. -/
theorem body_yields (fuel depth : Nat) (record : RecordDecl) :
    Yields (fun input r => record.NamesAll input.Spells → r.NamesAll input.Spells) (body fuel depth record) := by
  induction fuel generalizing depth record with
  | zero => exact .fail _
  | succ fuel ih =>
    unfold body
    refine .bind_any fun t => ?_
    split
    · exact .fail _
    · exact .bind_any fun _ => ih _ _
    · exact .bind_any fun _ => .ite (.pure fun _ h => h) (ih _ _)
    · exact .ite (.bind_any fun _ => .bind_any fun _ => ih _ _) (.bind_any fun _ => ih _ _)
    · refine .bind_any fun _ => .bind (member_yields property_yields) fun m => ?_
      split
      · next ds q =>
        refine (ih _ _).mono fun input r hr hq hrec => hr ⟨hrec.1, fun x hx => ?_⟩
        rcases List.mem_append.1 hx with hx | hx
        · exact hrec.2 x hx
        · rw [List.mem_singleton.1 hx]
          exact hq _ rfl
      · exact (ih _ _).mono fun _ _ hr _ => hr
    · refine .bind_any fun _ => .bind_any fun m => ?_
      split
      · exact ih _ _
      · exact ih _ _
    · exact .bind_any fun _ => ih _ _

theorem recordName_yields (kind : RecordKind) (keyword : Token) :
    Yields (fun input name => input.Spells name) (recordName kind keyword) := by
  unfold recordName
  refine .bind_any fun start => .bind read_yields fun input => .bind_any fun _ => ?_
  dsimp only
  refine .bind_any fun _ => .ite (.bind_any fun _ => .ite (.bind_any fun _ => ?_) ?_) ?_
  -- after the checks the name is the last of the names read, less a trailing `final`
  all_goals
    split
    · next t ht =>
      refine .pure fun _ h => h ▸ @spells_of_getLast input start _ t ?_ ht
      split
      · exact List.dropLast_sublist _
      · exact List.Sublist.refl _
    · exact .throw _

theorem recordHead_yields : Yields (fun input r => r.NamesAll input.Spells) recordHead := by
  unfold recordHead
  refine .bind_any fun _ => .bind_any fun _ => .bind_any fun _ => .bind_any fun _ =>
    .bind (recordName_yields _ _) fun name => .bind_any fun _ =>
      .ite (.bind_any fun _ => ?_) (.bind_any fun _ => ?_)
  all_goals exact .bind_any fun _ => .pure fun _ h => ⟨h, fun q hq => by cases hq⟩

theorem record_yields : Yields (fun input r => r.NamesAll input.Spells) record :=
  .bind recordHead_yields fun _ => .bind_any fun _ => .bind_any fun _ =>
    .bind (body_yields _ _ _) fun _ => .bind_any fun _ => .pure fun _ h hd => h hd

theorem enumDecl_yields : Yields (fun input e => input.Spells e.name) enumDecl := by
  unfold enumDecl
  -- everything read after the name keeps it
  have entries : ∀ (name path : String) (isScoped : Bool), Yields (fun _ e => e.name = name) (do
      let _ ← expect .leftBrace
      let values ← enumEntries (← rounds) 0 #[]
      let _ ← expect .rightBrace
      let _ ← expect .semicolon
      return (⟨name, path, values.toList, isScoped⟩ : EnumDecl)) := fun _ _ _ =>
    .bind_any fun _ => .bind_any fun _ => .bind_any fun _ => .bind_any fun _ => .bind_any fun _ =>
      .pure fun _ => rfl
  refine .bind_any fun _ => .bind_any fun _ => .bind_any fun _ => .bind_any fun _ =>
    .bind_any fun _ => .ite (.bind_any fun _ => ?_) (.bind_any fun _ => ?_)
  all_goals
    refine .bind_any fun start => .bind read_yields fun input => .bind_any fun _ => ?_
    dsimp only
    split
    · next t ht =>
      have hs : input.Spells t.text := @spells_of_getLast input start _ t (List.Sublist.refl _) ht
      have keeps : ∀ (e : EnumDecl) (i : ParseInput), e.name = t.text → input = i → i.Spells e.name :=
        fun _ _ he hin => hin ▸ he ▸ hs
      refine .bind (.pure fun _ => rfl) fun name => ?_
      -- an optional underlying type, read or skipped up to the brace, then the entries
      refine .ite (.bind_any fun _ => ?_) ?_
      all_goals
        refine .bind_any fun _ => .ite (.bind_any fun _ => ?_) ((entries _ _ _).mono ?_)
        · split
          · exact .bind_any fun _ => (entries _ _ _).mono fun _ e he hname hin => keeps e _ (he.trans hname.symm) hin
          · exact .bind_any fun _ => .fail_bind _ _
        · exact fun _ e he hname hin => keeps e _ (he.trans hname.symm) hin
    · exact .fail_bind _ _

theorem recover_yields (start : Nat) (decls : FileDecls) (e : ParseError) :
    Yields (fun _ d => d = decls) (recover start decls e) := by
  unfold recover
  exact .bind_any fun _ => .bind_any fun _ =>
    .ite (.bind_any fun _ => .pure fun _ => rfl) (.pure fun _ => rfl)

/-- The walk over a header keeps the names of the declarations it was given, and every record
and enum it adds is named in the input. -/
theorem declarations_yields (fuel : Nat) (decls : FileDecls) :
    Yields (fun input d => decls.NamesAll input.Spells → d.NamesAll input.Spells) (declarations fuel decls) := by
  induction fuel generalizing decls with
  | zero => exact .pure fun _ h => h
  | succ fuel ih =>
    unfold declarations
    dsimp only
    refine .bind_any fun _ => .ite (.pure fun _ h => h) (.bind_any fun start => .bind_any fun _ => ?_)
    -- each way on gives declarations that keep the names, and the walk goes on from them
    have hon : ∀ step : Parser FileDecls,
        Yields (fun input d => decls.NamesAll input.Spells → d.NamesAll input.Spells) step →
        Yields (fun input d => decls.NamesAll input.Spells → d.NamesAll input.Spells) (step >>= declarations fuel) :=
      fun _ hstep => .bind hstep fun d => (ih d).mono fun _ _ hb hd hdecls => hb (hd hdecls)
    refine .ite (hon _ (.tryCatch (.bind record_yields fun r => .pure fun _ hr hd => ?_)
      fun e => (recover_yields _ _ e).mono fun _ _ h hd => h ▸ hd))
      (.ite (hon _ (.tryCatch (.bind enumDecl_yields fun e => .pure fun _ he hd => ?_)
        fun e => (recover_yields _ _ e).mono fun _ _ h hd => h ▸ hd))
        (.bind_any fun _ => hon _ (.pure fun _ hd => hd)))
    · refine ⟨fun x hx => ?_, hd.2⟩
      rcases List.mem_append.1 hx with hx | hx
      · exact hd.1 x hx
      · rw [List.mem_singleton.1 hx]
        exact hr
    · refine ⟨hd.1, fun x hx => ?_⟩
      rcases List.mem_append.1 hx with hx | hx
      · exact hd.2 x hx
      · rw [List.mem_singleton.1 hx]
        exact he

end Parser

/-- Every name of a parsed header is spelled by an identifier of the header. -/
theorem parseHeader_namedIn (text path : String) :
    (parseHeader text path).decls.NamesAll (ParseInput.ofHeader text path).Spells := by
  unfold parseHeader parseTokens
  dsimp only
  split
  next result state hrun =>
  split
  · next d =>
    -- the walk starts from no declarations, which are named in any input
    exact Parser.declarations_yields _ _ _ _ d state hrun ⟨by simp, by simp⟩
  · constructor <;> simp


/-- The tokens a header is parsed from are those the scanner finds. -/
theorem ParseInput.ofHeader_tokens (text path : String) :
    (ParseInput.ofHeader text path).tokens = (tokenize text).tokens := by
  obtain ⟨mid, span, htokens, -⟩ := scanFrom_tokens text.toList Position.start ⟨#[], #[]⟩
  exact ofTokens_tokens path (by rw [tokenize, htokens]; simp [Token.endOfInput])

/-- A name spelled by an identifier of a header is made of name characters. -/
theorem ParseInput.Spells.isNameChar {text path name : String}
    (h : (ParseInput.ofHeader text path).Spells name) : ∀ c ∈ name.toList, isNameChar c = true := by
  obtain ⟨t, ht, hk, rfl⟩ := h
  rw [ParseInput.ofHeader_tokens] at ht
  exact isNameChar_of_identifier (Array.mem_toList_iff.1 ht) hk

/-- Every name of a parsed header is made of name characters: none holds a blank or a line
break. -/
theorem isNameChar_of_parseHeader (text path : String) :
    (parseHeader text path).decls.NamesAll fun name => ∀ c ∈ name.toList, isNameChar c = true :=
  (parseHeader_namedIn text path).mono fun _ h => h.isNameChar

end TypeReflection
