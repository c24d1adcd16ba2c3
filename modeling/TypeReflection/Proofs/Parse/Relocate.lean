import TypeReflection.Proofs.Parse.Views
import TypeReflection.Proofs.Parse.Safety

/-!
# Declarations read from moved tokens

Every parser of a declaration follows a relocation (`Relocation.Sim`): run on tokens that stand
`offset` places further on, moved by a `Shift`, it ends as far on, fails where the source run
fails, and otherwise reads the same declaration with its lines moved (`RecordDecl.moveBy`).
Enums keep no lines and are read the same (`enumDecl_sim`).

Each proof follows its parser. Steps that read the cursor's token follow from
`Relocation.current_sim` and its kin. Steps that look ahead with a scan (`scanTo`,
`scanProperty`, `takeWhile`) first show that the source run reaches the place where the scan
stopped (the `Grows` facts of the rest of the parser), so that the window covers what the scan
read, and then that the target's scan stops as far on (`Window.scanTo_eq` and its kin).

The walk over a header keeps the records read before some boundary and moves the ones after it
(`FileDecls.moveFrom`, `declarations_sim`).
-/

set_option autoImplicit false

namespace TypeReflection

theorem Token.exists_moved (δ : Shift) (t : Token) : ∃ t', t.Moved δ t' :=
  ⟨_, Token.moved_moveBy δ t⟩

/-- A property read from tokens moved by `δ`: its name lies `δ.lines` lines further down. -/
def PropertyDecl.moveBy (δ : Shift) (p : PropertyDecl) : PropertyDecl := { p with line := p.line + δ.lines }

/-- A method read from tokens moved by `δ`: its name lies `δ.lines` lines further down. -/
def MethodDecl.moveBy (δ : Shift) (m : MethodDecl) : MethodDecl := { m with line := m.line + δ.lines }

/-- A record read from tokens moved by `δ`: its members and its `GENERATED_BODY` anchor lie
`δ.lines` lines further down. -/
def RecordDecl.moveBy (δ : Shift) (r : RecordDecl) : RecordDecl :=
  { r with
    properties := r.properties.map (·.moveBy δ)
    methods := r.methods.map (·.moveBy δ)
    bodyLine := r.bodyLine.map (· + δ.lines) }

@[simp] theorem RecordDecl.moveBy_bodyLine_isSome (δ : Shift) (r : RecordDecl) :
    (r.moveBy δ).bodyLine.isSome = r.bodyLine.isSome := by
  simp [RecordDecl.moveBy]

theorem Token.filter_kind_moved {δ : Shift} {o o' : Option Token} (h : Option.Rel (Token.Moved δ) o o')
    (k : TokenKind) :
    Option.Rel (Token.Moved δ) (o.filter (·.kind == k)) (o'.filter (·.kind == k)) := by
  cases h with
  | none => exact .none
  | some hm =>
    simp only [Option.filter_some, hm.kind]
    split
    · exact .some hm
    · exact .none

theorem Parser.isMethodQualifier_congr {t t' : Token} (h : t'.view = t.view) :
    Parser.isMethodQualifier t' = Parser.isMethodQualifier t := by
  obtain ⟨hk, ht⟩ := Token.view_eq_iff.1 h
  simp only [Parser.isMethodQualifier, Token.isName, hk, ht]

theorem Parser.dropWhile_qualifier_length {l l' : List Token} (h : l'.map Token.view = l.map Token.view) :
    (l'.dropWhile Parser.isMethodQualifier).length = (l.dropWhile Parser.isMethodQualifier).length := by
  induction l generalizing l' with
  | nil => simp_all
  | cons t ts ih =>
    obtain ⟨t', ts', rfl, hv, hvs⟩ := List.map_eq_cons_iff.1 h
    simp only [List.dropWhile_cons, Parser.isMethodQualifier_congr hv]
    split
    · exact ih hvs
    · simpa using congrArg List.length hvs

/-- The last tokens of lists that look alike have the same text. -/
theorem Token.getLast?_texts {l l' : List Token} (h : l'.map Token.view = l.map Token.view) :
    Option.Rel (fun t t' : Token => t'.text = t.text) l.getLast? l'.getLast? := by
  have := congrArg List.getLast? h
  rw [List.getLast?_map, List.getLast?_map] at this
  cases hl : l.getLast? <;> cases hl' : l'.getLast? <;> simp_all [Token.view]

/-- In token arrays that stand moved, the identifier just before `idx`, if there is one, stands
moved: the name a member read picks is the same token on both sides. -/
theorem Token.nameBefore_moved {δ : Shift} {A A' : Array Token}
    (htok : List.Forall₂ (Token.Moved δ) A.toList A'.toList) (idx : Nat) :
    Option.Rel (Token.Moved δ)
      (if 0 < idx then Option.filter (fun x => x.kind == TokenKind.identifier) A[idx - 1]? else none)
      (if 0 < idx then Option.filter (fun x => x.kind == TokenKind.identifier) A'[idx - 1]?
        else none) := by
  split
  · have := Token.getElem?_moved htok (idx - 1)
    simp only [Array.getElem?_toList] at this
    exact Token.filter_kind_moved this _
  · exact .none

/-- Arrays of tokens that look alike spell their first `n` tokens alike. -/
theorem Token.spell_take_congr {A A' : Array Token}
    (hviews : A'.toList.map Token.view = A.toList.map Token.view) (n : Nat) :
    Token.spell (A'.toList.take n) = Token.spell (A.toList.take n) :=
  Token.spell_congr (by rw [List.map_take, List.map_take, hviews])

theorem ParseInput.size_eq_lastIndex_succ (input : ParseInput) :
    input.tokens.size = input.lastIndex + 1 := by
  have := input.nonempty
  unfold ParseInput.lastIndex
  omega

theorem ParseInput.RoundsSuffice.bind {input : ParseInput} {α β : Type} {f : Nat → Parser α}
    (hr : input.RoundsSuffice f) (k : α → Parser β) : input.RoundsSuffice fun n => f n >>= k :=
  fun s hs j => by simp only [Parser.runOn_bind, hr s hs j]

/-- The declarations with the records from the `k`-th on moved by `δ`: what a walk reads when
the tokens after a boundary move, the first `k` records having been read before it. -/
def FileDecls.moveFrom (δ : Shift) (k : Nat) (d : FileDecls) : FileDecls :=
  { d with records := d.records.take k ++ (d.records.drop k).map (RecordDecl.moveBy δ) }

theorem FileDecls.moveFrom_of_length_le {δ : Shift} {k : Nat} {d : FileDecls}
    (h : d.records.length ≤ k) : d.moveFrom δ k = d := by
  simp [FileDecls.moveFrom, List.take_of_length_le h, List.drop_of_length_le h]

theorem FileDecls.moveFrom_addRecord {δ : Shift} {k : Nat} {d : FileDecls} (r : RecordDecl)
    (h : k ≤ d.records.length) :
    { d.moveFrom δ k with records := (d.moveFrom δ k).records ++ [r.moveBy δ] } =
      FileDecls.moveFrom δ k { d with records := d.records ++ [r] } := by
  simp [FileDecls.moveFrom, List.take_append_of_le_length h, List.drop_append_of_le_length h]

theorem FileDecls.moveFrom_addEnum {δ : Shift} {k : Nat} {d : FileDecls} (e : EnumDecl) :
    { d.moveFrom δ k with enums := (d.moveFrom δ k).enums ++ [e] } =
      FileDecls.moveFrom δ k { d with enums := d.enums ++ [e] } := rfl

namespace Parser

open Scan

/-- A record read with `finish` in place of its closing `;`: `record` reads the `;` there. -/
def recordWith (finish : RecordDecl → Parser RecordDecl) : Parser RecordDecl := do
  let decl ← recordHead
  let _ ← expect .leftBrace
  let decl ← body (← rounds) 1 decl
  finish decl

theorem record_eq_recordWith : record = recordWith fun decl => do
    let _ ← expect .semicolon
    return decl := rfl

/-- Reading a record and then its end is reading it with that end. -/
theorem recordWith_bind (k : RecordDecl → Parser RecordDecl) : recordWith pure >>= k = recordWith k := by
  simp only [recordWith, bind_assoc, bind_pure]

/-- An enum read with `finish` in place of its closing `;`: `enumDecl` reads the `;` there. -/
def enumWith (finish : EnumDecl → Parser EnumDecl) : Parser EnumDecl := do
  let marker ← expect .enumMarker
  let decorators ← decoratorList
  let _ ← eat .semicolon
  let _ ← expect .kwEnum
  let isScoped ← if ← eat .kwClass then pure true else eat .kwStruct
  let start ← position
  let input ← read
  let names := (input.fromIndex start).takeWhile (·.kind == .identifier)
  seek (start + names.length)
  let name ← match names.getLast? with
    | some t => pure t.text
    | none => fail "enum name"
  if !decorators.isEmpty then
    warn s!"Decorators on enum '{name}' are ignored" marker.span
  if ← eat .colon then
    let here ← position
    match scanTo .leftBrace (fun k => k == .eof || k == .semicolon) (input.fromIndex here) here with
    | .found i => seek i
    | .cut i =>
      seek i
      fail "'\x7b'"
  let _ ← expect .leftBrace
  let values ← enumEntries (← rounds) 0 #[]
  let _ ← expect .rightBrace
  finish ⟨name, input.path, values.toList, isScoped⟩

theorem enumDecl_eq_enumWith : enumDecl = enumWith fun e => do
    let _ ← expect .semicolon
    return e := rfl

/-- Reading an enum and then its end is reading it with that end. The reader's branches each end
with the entries, so the end goes into every branch. -/
theorem enumWith_bind (k : EnumDecl → Parser EnumDecl) : enumWith pure >>= k = enumWith k := by
  unfold enumWith
  simp only [bind_assoc, pure_bind, ← ite_bind_eq]
  refine congrArg (expect .enumMarker >>= ·) (funext fun marker => ?_)
  refine congrArg (decoratorList >>= ·) (funext fun ds => ?_)
  refine congrArg (eat .semicolon >>= ·) (funext fun _ => ?_)
  refine congrArg (expect .kwEnum >>= ·) (funext fun _ => ?_)
  refine congrArg (eat .kwClass >>= ·) (funext fun b => ?_)
  congr 1
  on_goal 2 => refine congrArg (eat .kwStruct >>= ·) (funext fun sc => ?_)
  -- past the name, whether there is one or the read fails on it
  all_goals
    refine congrArg (position >>= ·) (funext fun start => ?_)
    refine congrArg (read >>= ·) (funext fun input => ?_)
    refine congrArg (seek _ >>= ·) (funext fun _ => ?_)
    split
  all_goals simp only [bind_assoc, pure_bind, ← ite_bind_eq]
  on_goal 2 => refine congrArg ((fail "enum name" : Parser String) >>= ·) (funext fun _ => ?_)
  on_goal 4 => refine congrArg ((fail "enum name" : Parser String) >>= ·) (funext fun _ => ?_)
  -- past the warning on decorators and the underlying type, down to the entries
  all_goals
    congr 1
    on_goal 1 => refine congrArg (warn _ _ >>= ·) (funext fun _ => ?_)
  all_goals
    refine congrArg (eat .colon >>= ·) (funext fun _ => ?_)
    congr 1
    refine congrArg (position >>= ·) (funext fun _ => ?_)
    split
  all_goals simp only [bind_assoc, pure_bind]

end Parser

namespace Relocation

open TypeReflection.Parser TypeReflection.Scan

variable {α β : Type} {ρ : Relocation}

/-- A bind whose first step gives equal values on both sides. -/
theorem Sim.bind_eq {γ : Type} {R : β → γ → Prop} {p q : Parser α} {f : α → Parser β}
    {g : α → Parser γ} (hp : ρ.Sim Eq p q) (hf : ∀ a, ρ.Sim R (f a) (g a)) :
    ρ.Sim R (p >>= f) (q >>= g) :=
  hp.bind (fun a => ⟨a, rfl⟩) fun a _ h => h ▸ hf a

theorem skipFloatSuffix_sim (numberEnd : Nat) :
    ρ.Sim Eq (skipFloatSuffix numberEnd) (skipFloatSuffix (numberEnd + ρ.shift.bytes)) := by
  unfold skipFloatSuffix
  refine current_sim.bind (Token.exists_moved _) fun t t' hm => ?_
  -- the suffix is glued to the number on both sides, or on neither
  have hc : (t'.span.start == numberEnd + ρ.shift.bytes && (t'.isName "f" || t'.isName "F")) =
      (t.span.start == numberEnd && (t.isName "f" || t.isName "F")) := by
    simp only [hm.start, Token.isName, hm.kind, hm.text]
    congr 1
    exact Bool.eq_iff_iff.2 (by simp)
  rw [hc]
  exact .ite (advance_sim.bind (Token.exists_moved _) fun _ _ _ => .pure rfl)
    (.pure rfl)

/-- A step that reads its input first follows when what comes after follows for the two
inputs. -/
theorem Sim.read {R : α → β → Prop} {f : ParseInput → Parser α} {g : ParseInput → Parser β}
    (h : ρ.Sim R (f ρ.source) (g ρ.target)) :
    ρ.Sim R ((MonadReader.read : Parser ParseInput) >>= f) ((MonadReader.read : Parser ParseInput) >>= g) :=
  fun start => SimAt.read (h start)

/-- A step that fails at once follows whatever comes after it. -/
theorem fail_bind_sim {γ : Type} {R : β → γ → Prop} (expected expected' : String)
    (f : α → Parser β) (g : α → Parser γ) :
    ρ.Sim R (fail expected >>= f) (fail expected' >>= g) :=
  .of_grows_stay (fun s => by rw [runOn_bind_of_error _ _ (runOn_fail _ _ _)])
    (fun t => by rw [runOn_bind_of_error _ _ (runOn_fail _ _ _)])
    fun s t => by rw [runOn_bind_of_error _ _ (runOn_fail _ _ _), runOn_bind_of_error _ _ (runOn_fail _ _ _)]; trivial

/-- A step that throws at once follows whatever comes after it. -/
theorem throw_bind_sim {γ : Type} {R : β → γ → Prop} (e e' : ParseError) (f : α → Parser β)
    (g : α → Parser γ) : ρ.Sim R (throw e >>= f) (throw e' >>= g) :=
  .of_grows_stay (fun _ => rfl) (fun _ => rfl) fun _ _ => trivial

theorem qualifiedTail_sim (fuel : Nat) (acc : String) :
    ρ.Sim Eq (qualifiedTail fuel acc) (qualifiedTail fuel acc) := by
  induction fuel generalizing acc with
  | zero => exact .pure rfl
  | succ n ih =>
    unfold qualifiedTail
    refine (check_sim _).bind_eq fun b => .ite ?_ (.pure rfl)
    refine advance_sim.bind (Token.exists_moved _) fun _ _ _ => ?_
    refine (expect_sim _).bind (Token.exists_moved _) fun t t' hm => ?_
    rw [hm.text]
    exact ih _

/-- A loop given `rounds` follows when it follows for every number of rounds, and more rounds
than its source has tokens change nothing there. -/
theorem Sim.rounds_of {R : α → β → Prop} {f : Nat → Parser α} {g : Nat → Parser β}
    (h : ∀ n, ρ.Sim R (f n) (g n)) (hr : ρ.source.RoundsSuffice f) :
    ρ.Sim R (Parser.rounds >>= f) (Parser.rounds >>= g) :=
  Sim.rounds h fun s hs => by
    obtain ⟨k, hk⟩ : ∃ k, ρ.target.tokens.size + 1 = ρ.source.tokens.size + 1 + k :=
      ⟨ρ.target.tokens.size - ρ.source.tokens.size, by have := ρ.size; omega⟩
    rw [hk, hr s hs k]

theorem decoratorValue_sim : ρ.Sim Eq decoratorValue decoratorValue := by
  unfold decoratorValue
  refine current_sim.bind (Token.exists_moved _) fun t t' hm => ?_
  rw [hm.kind, hm.text, hm.stop]
  split
  · exact advance_sim.bind (Token.exists_moved _) fun _ _ _ => .pure rfl
  · exact advance_sim.bind (Token.exists_moved _) fun _ _ _ =>
      (skipFloatSuffix_sim _).bind_eq fun _ => .pure rfl
  · refine advance_sim.bind (Token.exists_moved _) fun _ _ _ =>
      (expect_sim _).bind (Token.exists_moved _) fun n n' hn => ?_
    rw [hn.stop, hn.text]
    exact (skipFloatSuffix_sim _).bind_eq fun _ => .pure rfl
  · exact .ite (advance_sim.bind (Token.exists_moved _) fun _ _ _ =>
      Sim.rounds_of (fun n => qualifiedTail_sim n _) (ParseInput.roundsSuffice_of
        fun n m s hs hn hm => qualifiedTail_rounds ρ.endsWithEof n m _ s hs hn hm)) (fail_sim _ _)

theorem commaItems_sim {item : Parser α} (h : ρ.Sim Eq item item) (fuel : Nat) (acc : Array α) :
    ρ.Sim Eq (commaItems item fuel acc) (commaItems item fuel acc) := by
  induction fuel generalizing acc with
  | zero => exact .pure rfl
  | succ n ih =>
    unfold commaItems
    refine (check_sim _).bind_eq fun b => .ite (.pure rfl) ?_
    refine h.bind_eq fun x => (eat_sim _).bind_eq fun sep => ?_
    dsimp only
    exact .ite ((check_sim _).bind_eq fun c => .ite (fail_bind_sim _ _ _ _) (ih _)) (ih _)

theorem decorator_sim : ρ.Sim Eq decorator decorator := by
  unfold decorator
  dsimp only
  refine (check_sim _).bind_eq fun c => .ite (fail_bind_sim _ _ _ _) ?_
  refine advance_sim.bind (Token.exists_moved _) fun t t' hm => (eat_sim _).bind_eq fun b => ?_
  rw [hm.text]
  refine .ite (Sim.rounds_of (fun n => (commaItems_sim decoratorValue_sim n _).bind_eq fun vs =>
    (expect_sim _).bind (Token.exists_moved _) fun _ _ _ => .pure rfl)
      ((ParseInput.roundsSuffice_of fun n m s hs hn hm => commaItems_rounds ρ.endsWithEof
        decoratorValue_grows decoratorValue_progresses n m _ s hs hn hm).bind _)) (.pure rfl)

theorem decoratorList_sim : ρ.Sim Eq decoratorList decoratorList := by
  unfold decoratorList
  refine (expect_sim _).bind (Token.exists_moved _) fun _ _ _ => ?_
  exact Sim.rounds_of (fun n => (commaItems_sim decorator_sim n _).bind_eq fun ds =>
    (expect_sim _).bind (Token.exists_moved _) fun _ _ _ => .pure rfl)
      ((ParseInput.roundsSuffice_of fun n m s hs hn hm => commaItems_rounds ρ.endsWithEof
        decorator_grows decorator_progresses n m _ s hs hn hm).bind _)

/-- A step that reads a value off the window of its source run: what holds of the tokens up to
`k` may be used to relate the two runs, when every source run from `start` reaches `k`. -/
theorem SimAt.of_window {start k : Nat} {c : Prop} {R : α → β → Prop} {p : Parser α}
    {q : Parser β} (hk : start ≤ k)
    (hsrc : ∀ s : ParseState, s.pos = start → s.pos ≤ ρ.source.lastIndex →
      k ≤ (p.runOn ρ.source s).2.pos ∧ (p.runOn ρ.source s).2.pos ≤ ρ.source.lastIndex)
    (hc : ρ.Window start k → c) (h : c → ρ.SimAt start R p q) : ρ.SimAt start R p q := by
  intro s hstart hs
  obtain ⟨h₁, h₂⟩ := hsrc s hstart hs
  refine ⟨⟨by omega, h₂⟩, fun t ht hw => ?_⟩
  exact (h (hc (hw.mono (Nat.le_of_eq hstart) h₁)) s hstart hs).2 t ht hw

/-- Moving the cursor to `i` and going on reaches every index up to `i` on a token. -/
theorem reaches_seek_bind {input : ParseInput} {i k : Nat} {f : Unit → Parser α}
    (hf : ∀ a, Grows (f a)) (hk : k ≤ i) (hkl : k ≤ input.lastIndex) (s : ParseState) :
    k ≤ ((seek i >>= f).runOn input s).2.pos ∧
      ((seek i >>= f).runOn input s).2.pos ≤ input.lastIndex := by
  rw [runOn_bind_of_ok _ _ (runOn_seek _ _ _)]
  have := hf () input { s with pos := min i input.lastIndex } (Nat.min_le_right _ _)
  exact ⟨Nat.le_trans (Nat.le_min.2 ⟨hk, hkl⟩) this.pos_le, this.le_last⟩

/-- A step that moves the cursor forward to `i` and goes on: it follows a target step that, once
the window reaches `k`, is known to move to `i` moved on and go on alike. -/
theorem SimAt.seek_bind_of_window {start i k : Nat} {R : α → β → Prop} {f : Unit → Parser α}
    {q : Parser β} (hk : start ≤ k) (hki : k ≤ i)
    (hkl : k ≤ ρ.source.lastIndex) (hf : ∀ a, Grows (f a))
    (h : ρ.Window start k → ∃ g : Unit → Parser β, q = (seek (i + ρ.offset) >>= g) ∧
      ∀ a, ρ.Sim R (f a) (g a)) :
    ρ.SimAt start R (seek i >>= f) q :=
  SimAt.of_window hk (fun s _ _ => reaches_seek_bind hf hki hkl s) h fun ⟨_, hq, hfg⟩ =>
    hq ▸ (seek_simAt (Nat.le_trans hk hki)).bind (fun _ => ⟨(), rfl⟩) fun _ _ _ => hfg _

/-- A scan cut short at `i` makes the read fail there: it follows a target read that, once the
window reaches `i`, is known to fail at `i` moved on. -/
theorem SimAt.seek_fail_of_window {start i : Nat} {R : α → β → Prop} {e e' : String}
    {q : Parser β} (hle : start ≤ i) (hi : i ≤ ρ.source.lastIndex)
    (hq : ρ.Window start i → q = (seek (i + ρ.offset) >>= fun _ => fail e')) :
    ρ.SimAt start R (seek i >>= fun _ => fail e) q :=
  .seek_bind_of_window hle (Nat.le_refl i) hi (fun _ => fail_grows _) fun hw =>
    ⟨_, hq hw, fun _ => fail_sim _ _⟩

/-- A step from a cursor beyond the source's tokens follows vacuously. -/
theorem SimAt.of_le_lastIndex {start : Nat} {R : α → β → Prop} {p : Parser α} {q : Parser β}
    (h : start ≤ ρ.source.lastIndex → ρ.SimAt start R p q) : ρ.SimAt start R p q :=
  fun s hstart hs => h (hstart ▸ hs) s hstart hs

theorem property_sim : ρ.Sim (fun p p' => p' = p.moveBy ρ.shift) property property := by
  unfold property
  refine Sim.position fun start => SimAt.read (SimAt.of_le_lastIndex fun hstart => ?_)
  have hle := le_index_scanProperty (ρ.source.fromIndex start) start 0 none
  have hlt := scanProperty_within start 0 none (ρ.source.exists_eof_fromIndex ρ.endsWithEof hstart)
  rw [ρ.source.length_fromIndex, ρ.source.size_eq_lastIndex_succ] at hlt
  -- the target's scan stops where the source's does, moved on, once the window reaches the stop
  have follow := fun hw : ρ.Window start (scanProperty (ρ.source.fromIndex start) start 0 none).1.index =>
    hw.scanProperty_eq (by omega) (Nat.le_refl _)
  simp only [Option.map_none] at follow
  split
  · next i b heq =>
    rw [heq] at hle hlt follow
    dsimp only [Stop.index_cut, Stop.shift_cut] at hle hlt follow
    exact .seek_fail_of_window hle (by omega) fun hw => by rw [follow hw]
  · next stop boundary heq =>
    have hb : boundary.getD stop ≤ stop := by
      cases hbd : boundary with
      | none => simp
      | some b =>
        have := scanProperty_boundary_le (by simp) (heq ▸ hbd : (scanProperty (ρ.source.fromIndex start) start 0 none).2 = some b)
        rw [heq] at this
        simpa using this
    rw [heq] at hle hlt follow
    dsimp only [Stop.index_found, Stop.shift_found] at hle hlt follow
    refine .seek_bind_of_window hle (Nat.le_succ stop) (by omega) (fun _ => ?_) fun hw => ?_
    · dsimp only
      split
      · exact .throw _
      · exact .ite ((warn_grows _ _).bind fun _ => .pure _) (.pure _)
    rw [follow hw]
    dsimp only
    rw [Option.getD_map, show stop + ρ.offset + 1 = stop + 1 + ρ.offset by omega]
    refine ⟨_, rfl, fun _ => ?_⟩
    -- the tokens of the declarator stand moved in the target
    have htok : List.Forall₂ (Token.Moved ρ.shift) (ρ.source.tokens.extract start (boundary.getD stop)).toList
        (ρ.target.tokens.extract (start + ρ.offset) (boundary.getD stop + ρ.offset)).toList :=
      hw.slice (by omega) (Nat.le_refl start) (by omega)
    generalize ρ.source.tokens.extract start (boundary.getD stop) = A at *
    generalize ρ.target.tokens.extract (start + ρ.offset) (boundary.getD stop + ρ.offset) = A' at *
    have hviews := Token.views_of_moved htok
    have hsize : A'.size = A.size := by simpa using htok.length_eq.symm
    rw [stripGroups_congr hviews, hsize]
    obtain ⟨idx, groups⟩ := stripGroups A A.size []
    dsimp only
    -- the name token, if there is one, stands moved
    have hname := Token.nameBefore_moved htok idx
    generalize (if 0 < idx then Option.filter (fun x => x.kind == TokenKind.identifier) A[idx - 1]? else none) = o at hname ⊢
    generalize (if 0 < idx then Option.filter (fun x => x.kind == TokenKind.identifier) A'[idx - 1]? else none) = o' at hname ⊢
    cases hname with
    | none => exact Sim.throw _ _
    | some hm =>
      dsimp only
      rw [Token.spell_take_congr hviews, hm.text, hm.line]
      exact .ite ((warn_sim _ _ _ _).bind_eq fun _ => .pure rfl) (.pure rfl)

theorem skipMethodTail_sim : ρ.Sim Eq skipMethodTail skipMethodTail := by
  unfold skipMethodTail
  refine current_sim.bind (Token.exists_moved _) fun t t' hm => ?_
  refine Sim.position fun start => SimAt.read (SimAt.of_le_lastIndex fun hstart => ?_)
  have heof := ρ.source.exists_eof_fromIndex ρ.endsWithEof hstart
  have hsize := ρ.source.size_eq_lastIndex_succ
  have hlen := ρ.source.length_fromIndex start
  rw [hm.kind]
  split
  · -- an inline body, skipped up to the brace that closes it
    have hle := le_index_scanBraces (ρ.source.fromIndex start) start 0
    have hlt := scanBraces_within start 0 heof
    have follow := fun hw : ρ.Window start (scanBraces (ρ.source.fromIndex start) start 0).index =>
      hw.scanBraces_eq (by omega) (Nat.le_refl _)
    split
    · next i heq =>
      rw [heq] at hle hlt follow
      dsimp only [Stop.index_found, Stop.shift_found] at hle hlt follow
      exact .seek_bind_of_window hle (Nat.le_refl i) (by omega)
        (fun _ => advance_grows.bind fun _ => (eat_grows _).bind fun _ => .pure _) fun hw =>
          ⟨_, by rw [follow hw], fun _ => advance_sim.bind (Token.exists_moved _) fun _ _ _ =>
            (eat_sim _).bind_eq fun _ => .pure rfl⟩
    · next i heq =>
      rw [heq] at hle hlt follow
      dsimp only [Stop.index_cut, Stop.shift_cut] at hle hlt follow
      exact .seek_fail_of_window hle (by omega) fun hw => by rw [follow hw]
  · -- an `= ...;` tail, skipped up to its `;`
    have hle := le_index_scanTo .semicolon (fun k => k == .eof || k.isMarker) (ρ.source.fromIndex start) start
    have hlt := @scanTo_within .semicolon (fun k => k == .eof || k.isMarker) rfl _ start heof
    have follow := fun hw : ρ.Window start
        (scanTo .semicolon (fun k => k == .eof || k.isMarker) (ρ.source.fromIndex start) start).index =>
      hw.scanTo_eq (by omega) (Nat.le_refl _)
    split
    · next i heq =>
      rw [heq] at hle hlt follow
      dsimp only [Stop.index_found, Stop.shift_found] at hle hlt follow
      exact .seek_bind_of_window hle (Nat.le_refl i) (by omega)
        (fun _ => advance_grows.bind fun _ => .pure _) fun hw =>
          ⟨_, by rw [follow hw], fun _ => advance_sim.bind (Token.exists_moved _) fun _ _ _ => .pure rfl⟩
    · next i heq =>
      rw [heq] at hle hlt follow
      dsimp only [Stop.index_cut, Stop.shift_cut] at hle hlt follow
      exact .seek_fail_of_window hle (by omega) fun hw => by rw [follow hw]
  · exact ((expect_sim _).bind (Token.exists_moved _) fun _ _ _ => .pure rfl) start

theorem method_sim : ρ.Sim (fun m m' => m' = m.moveBy ρ.shift) method method := by
  unfold method
  refine Sim.position fun start => SimAt.read (SimAt.of_le_lastIndex fun hstart => ?_)
  have hle := le_index_scanMethod (ρ.source.fromIndex start) start 0
  have hlt := scanMethod_within start 0 (ρ.source.exists_eof_fromIndex ρ.endsWithEof hstart)
  rw [ρ.source.length_fromIndex, ρ.source.size_eq_lastIndex_succ] at hlt
  have follow := fun hw : ρ.Window start (scanMethod (ρ.source.fromIndex start) start 0).index =>
    hw.scanMethod_eq (by omega) (Nat.le_refl _)
  split
  · next i heq =>
    rw [heq] at hle hlt follow
    dsimp only [Stop.index_cut, Stop.shift_cut] at hle hlt follow
    exact .seek_fail_of_window hle (by omega) fun hw => by rw [follow hw]
  · next boundary heq =>
    rw [heq] at hle hlt follow
    dsimp only [Stop.index_found, Stop.shift_found] at hle hlt follow
    refine .seek_bind_of_window hle (Nat.le_refl boundary) (by omega) (fun _ => ?_) fun hw => ?_
    · refine skipMethodTail_grows.bind fun _ => ?_
      dsimp only
      split
      · refine .ite (Grows.throw _ |>.bind fun _ => ?_) ?_ <;>
        · split
          · exact .throw _
          · split
            · exact .throw _
            · exact .pure _
      · exact .throw _
    rw [follow hw]
    dsimp only
    refine ⟨_, rfl, fun _ => skipMethodTail_sim.bind_eq fun _ => ?_⟩
    -- the tokens of the declarator stand moved in the target
    have htok : List.Forall₂ (Token.Moved ρ.shift) (ρ.source.tokens.extract start boundary).toList
        (ρ.target.tokens.extract (start + ρ.offset) (boundary + ρ.offset)).toList :=
      hw.slice (by omega) (Nat.le_refl start) (by omega)
    generalize ρ.source.tokens.extract start boundary = A at *
    generalize ρ.target.tokens.extract (start + ρ.offset) (boundary + ρ.offset) = A' at *
    have hviews := Token.views_of_moved htok
    have hclose : (A'.toList.reverse.dropWhile isMethodQualifier).length =
        (A.toList.reverse.dropWhile isMethodQualifier).length :=
      dropWhile_qualifier_length (by simp only [List.map_reverse, hviews])
    rw [hclose]
    generalize (List.dropWhile isMethodQualifier A.toList.reverse).length = close
    -- the `)` closing the parameters, if there is one, stands moved
    have hclosing : Option.Rel (Token.Moved ρ.shift) (if 0 < close then A[close - 1]? else none)
        (if 0 < close then A'[close - 1]? else none) := by
      split
      · simpa only [Array.getElem?_toList] using Token.getElem?_moved htok (close - 1)
      · exact .none
    generalize (if 0 < close then A[close - 1]? else none) = c at hclosing ⊢
    generalize (if 0 < close then A'[close - 1]? else none) = c' at hclosing ⊢
    cases hclosing with
    | none =>
      dsimp only
      exact Sim.throw _ _
    | some hm =>
      dsimp only
      rw [hm.kind, matchingOpen_congr hviews]
      refine .ite (throw_bind_sim _ _ _ _) ?_
      split
      · exact Sim.throw _ _
      · next openIndex _ =>
        -- the name before the `(`, if there is one, stands moved
        have hname := Token.nameBefore_moved htok openIndex
        generalize (if 0 < openIndex then Option.filter (fun x => x.kind == TokenKind.identifier)
          A[openIndex - 1]? else none) = o at hname ⊢
        generalize (if 0 < openIndex then Option.filter (fun x => x.kind == TokenKind.identifier)
          A'[openIndex - 1]? else none) = o' at hname ⊢
        cases hname with
        | none =>
          dsimp only
          exact Sim.throw _ _
        | some hn =>
          dsimp only
          rw [Token.spell_take_congr hviews, hn.text, hn.line]
          exact .pure rfl

theorem memberDecorators_sim : ρ.Sim Eq memberDecorators memberDecorators := by
  unfold memberDecorators
  exact decoratorList_sim.bind_eq fun _ => (eat_sim _).bind_eq fun _ => .pure rfl

/-- A member read with `read` and moved with `f` is read in the target with its decorators, moved
alike. -/
theorem member_sim {f : α → α} {read : Parser α} (h : ρ.Sim (fun a a' => a' = f a) read read) :
    ρ.Sim (fun o o' => o' = o.map fun x => (x.1, f x.2)) (member read) (member read) := by
  unfold member
  refine .tryCatch (memberDecorators_sim.bind_eq fun ds => h.bind (fun a => ⟨f a, rfl⟩)
    fun a a' ha => ?_) fun _ _ => (report_sim _ _).bind_eq fun _ => .pure rfl
  rw [ha]
  exact .pure rfl

theorem body_sim (fuel depth : Nat) {record record' : RecordDecl}
    (h : record' = record.moveBy ρ.shift) :
    ρ.Sim (fun r r' => r' = r.moveBy ρ.shift) (body fuel depth record) (body fuel depth record') := by
  induction fuel generalizing depth record record' with
  | zero => exact fail_sim _ _
  | succ n ih =>
    subst h
    unfold body
    refine current_sim.bind (Token.exists_moved _) fun t t' hm => ?_
    rw [hm.kind]
    split
    · exact fail_sim _ _
    · exact advance_sim.bind (Token.exists_moved _) fun _ _ _ => ih _ rfl
    · exact advance_sim.bind (Token.exists_moved _) fun _ _ _ => .ite (.pure rfl) (ih _ rfl)
    · -- the anchor's line moves with its token
      have hr := ih depth (show { record.moveBy ρ.shift with bodyLine := some t'.span.line } =
        RecordDecl.moveBy ρ.shift { record with bodyLine := some t.span.line } by
          simp [RecordDecl.moveBy, hm.line])
      rw [RecordDecl.moveBy_bodyLine_isSome]
      dsimp only
      exact .ite ((warn_sim _ _ _ _).bind_eq fun _ =>
          advance_sim.bind (Token.exists_moved _) fun _ _ _ => hr)
        (advance_sim.bind (Token.exists_moved _) fun _ _ _ => hr)
    · refine advance_sim.bind (Token.exists_moved _) fun _ _ _ =>
        (member_sim property_sim).bind (fun o => ⟨_, rfl⟩) fun o o' ho => ?_
      subst ho
      cases o with
      | none => exact ih _ rfl
      | some x => exact ih _ (by simp [RecordDecl.moveBy, PropertyDecl.moveBy])
    · refine advance_sim.bind (Token.exists_moved _) fun _ _ _ =>
        (member_sim method_sim).bind (fun o => ⟨_, rfl⟩) fun o o' ho => ?_
      subst ho
      cases o with
      | none => exact ih _ rfl
      | some x => exact ih _ (by simp [RecordDecl.moveBy, MethodDecl.moveBy])
    · exact advance_sim.bind (Token.exists_moved _) fun _ _ _ => ih _ rfl

theorem baseList_sim : ρ.Sim Eq baseList baseList := by
  unfold baseList
  refine Sim.position fun start => SimAt.read (SimAt.of_le_lastIndex fun hstart => ?_)
  have hle := le_index_scanBases (ρ.source.fromIndex start) start 0 [] []
  have hlt := scanBases_within start 0 [] [] (ρ.source.exists_eof_fromIndex ρ.endsWithEof hstart)
  rw [ρ.source.length_fromIndex, ρ.source.size_eq_lastIndex_succ] at hlt
  have follow := fun hw : ρ.Window start (scanBases (ρ.source.fromIndex start) start 0 [] []).1.index =>
    hw.scanBases_eq (by omega) (Nat.le_refl _)
  split
  · next i parents heq =>
    rw [heq] at hle hlt follow
    dsimp only [Stop.index_found, Stop.shift_found] at hle hlt follow
    exact .seek_bind_of_window hle (Nat.le_refl i) (by omega) (fun _ => .pure _) fun hw =>
      ⟨_, by rw [follow hw], fun _ => .pure rfl⟩
  · next i b heq =>
    rw [heq] at hle hlt follow
    dsimp only [Stop.index_cut, Stop.shift_cut] at hle hlt follow
    exact .seek_fail_of_window hle (by omega) fun hw => by rw [follow hw]

theorem recordName_sim (kind : RecordKind) (keyword keyword' : Token) :
    ρ.Sim Eq (recordName kind keyword) (recordName kind keyword') := by
  unfold recordName
  refine Sim.position fun start => SimAt.read (SimAt.of_le_lastIndex fun hstart => ?_)
  have hlt := takeWhile_within (ρ.source.exists_eof_fromIndex ρ.endsWithEof hstart)
  rw [ρ.source.length_fromIndex, ρ.source.size_eq_lastIndex_succ] at hlt
  refine .seek_bind_of_window (Nat.le_add_right _ _) (Nat.le_refl _) (by omega)
    (fun _ => ?_) fun hw => ?_
  · dsimp only
    refine (check_grows _).bind fun _ =>
      .ite ((check_grows _).bind fun _ => .ite ((fail_grows _).bind fun _ => ?_) ?_) ?_
    all_goals
      split
      · exact .pure _
      · exact .throw _
  -- the names read in the target look like those of the source
  have hnames := hw.takeWhile_eq (by omega) (Nat.le_refl _)
  generalize (ρ.target.fromIndex (start + ρ.offset)).takeWhile (·.kind == .identifier) = N' at hnames ⊢
  generalize (ρ.source.fromIndex start).takeWhile (·.kind == .identifier) = N at hnames ⊢
  have hlen : N'.length = N.length := by simpa using congrArg List.length hnames
  dsimp only
  rw [hlen, show start + ρ.offset + N.length = start + N.length + ρ.offset by omega]
  refine ⟨_, rfl, fun _ => (check_sim _).bind_eq fun c =>
    .ite ((check_sim _).bind_eq fun _ => .ite (fail_bind_sim _ _ _ _) ?_) ?_⟩
  -- the last name, once a trailing `final` is dropped, has the same text in the target
  all_goals
    have hfinal : N'.getLast?.map (·.text) = N.getLast?.map (·.text) := by
      have := congrArg (fun l => l.getLast?.map Prod.snd) hnames
      simpa [List.getLast?_map, Option.map_map, Function.comp_def, Token.view] using this
    rw [hfinal]
    have hpick : Option.Rel (fun t t' : Token => t'.text = t.text)
        (if (decide (1 < N.length) && N.getLast?.map (·.text) == some "final") = true then N.dropLast
          else N).getLast?
        (if (decide (1 < N.length) && N.getLast?.map (·.text) == some "final") = true then N'.dropLast
          else N').getLast? := by
      split
      · exact Token.getLast?_texts (by rw [List.map_dropLast, List.map_dropLast, hnames])
      · exact Token.getLast?_texts hnames
    generalize (if (decide (1 < N.length) && N.getLast?.map (·.text) == some "final") = true then N.dropLast
      else N).getLast? = o at hpick ⊢
    generalize (if (decide (1 < N.length) && N.getLast?.map (·.text) == some "final") = true then N'.dropLast
      else N').getLast? = o' at hpick ⊢
    cases hpick with
    | none => exact Sim.throw _ _
    | some ht =>
      dsimp only
      rw [ht]
      exact .pure rfl

theorem recordHead_sim : ρ.Sim (fun r r' => r' = r.moveBy ρ.shift) recordHead recordHead := by
  unfold recordHead
  refine advance_sim.bind (Token.exists_moved _) fun m m' hm => ?_
  rw [hm.kind]
  dsimp only
  refine decoratorList_sim.bind_eq fun ds => ?_
  refine (eat_sim _).bind_eq fun _ => ?_
  refine (expect_sim _).bind (Token.exists_moved _) fun kw kw' _ => ?_
  refine (recordName_sim _ _ _).bind_eq fun name => ?_
  refine (eat_sim _).bind_eq fun b =>
    .ite (baseList_sim.bind_eq fun parents => ?_) ((Sim.pure rfl).bind_eq fun parents => ?_)
  all_goals exact Sim.read (.pure (by simp [RecordDecl.moveBy, ρ.path]))

/-- A record read with ends that follow one another follows. -/
theorem recordWith_sim {finish finish' : RecordDecl → Parser RecordDecl}
    (hfinish : ∀ r r', r' = r.moveBy ρ.shift →
      ρ.Sim (fun r r' => r' = r.moveBy ρ.shift) (finish r) (finish' r')) :
    ρ.Sim (fun r r' => r' = r.moveBy ρ.shift) (recordWith finish) (recordWith finish') := by
  unfold recordWith
  refine recordHead_sim.bind (fun r => ⟨_, rfl⟩) fun r r' hr =>
    (expect_sim _).bind (Token.exists_moved _) fun _ _ _ => Sim.rounds_of (fun n =>
      (body_sim n 1 hr).bind (fun d => ⟨_, rfl⟩) hfinish) ?_
  exact (ParseInput.roundsSuffice_of fun n m s hs hn hm =>
    body_rounds ρ.endsWithEof n m 1 r s hs hn hm).bind _

theorem record_sim : ρ.Sim (fun r r' => r' = r.moveBy ρ.shift) record record := by
  rw [record_eq_recordWith]
  exact recordWith_sim fun _ _ hr => (expect_sim _).bind (Token.exists_moved _) fun _ _ _ => .pure hr

theorem enumValue_sim : ρ.Sim Eq enumValue enumValue := by
  unfold enumValue
  refine (eat_sim _).bind_eq fun neg => (expect_sim _).bind (Token.exists_moved _) fun t t' hm => ?_
  rw [hm.text]
  split
  · exact .pure rfl
  · exact Sim.read (Sim.throw _ _)

theorem enumEntries_sim (fuel : Nat) (next : Int) (acc : Array EnumEntry) :
    ρ.Sim Eq (enumEntries fuel next acc) (enumEntries fuel next acc) := by
  induction fuel generalizing next acc with
  | zero => exact .pure rfl
  | succ n ih =>
    unfold enumEntries
    dsimp only
    refine (check_sim _).bind_eq fun _ => .ite (.pure rfl) ((check_sim _).bind_eq fun _ =>
      .ite (fail_bind_sim _ _ _ _) ?_)
    refine advance_sim.bind (Token.exists_moved _) fun e e' he => ?_
    rw [he.text]
    refine (eat_sim _).bind_eq fun _ =>
      .ite (enumValue_sim.bind_eq fun _ => ?_) ((Sim.pure rfl).bind_eq fun _ => ?_)
    all_goals
      exact (eat_sim _).bind_eq fun _ =>
        .ite ((check_sim _).bind_eq fun _ => .ite (fail_bind_sim _ _ _ _) (ih _ _)) (ih _ _)

theorem enumBlock_sim {finish finish' : EnumDecl → Parser EnumDecl}
    (hfinish : ∀ e, ρ.Sim Eq (finish e) (finish' e)) (name path : String) (isScoped : Bool) :
    ρ.Sim Eq (do
      let _ ← expect .leftBrace
      let values ← enumEntries (← rounds) 0 #[]
      let _ ← expect .rightBrace
      finish ⟨name, path, values.toList, isScoped⟩) (do
      let _ ← expect .leftBrace
      let values ← enumEntries (← rounds) 0 #[]
      let _ ← expect .rightBrace
      finish' ⟨name, path, values.toList, isScoped⟩) := by
  refine (expect_sim _).bind (Token.exists_moved _) fun _ _ _ => Sim.rounds_of (fun n =>
    (enumEntries_sim n 0 #[]).bind_eq fun _ => (expect_sim _).bind (Token.exists_moved _)
      fun _ _ _ => hfinish _) ?_
  exact (ParseInput.roundsSuffice_of fun n m s hs hn hm =>
    enumEntries_rounds ρ.endsWithEof n m 0 #[] s hs hn hm).bind _

theorem enumTail_sim {finish finish' : EnumDecl → Parser EnumDecl}
    (hfinish : ∀ e, ρ.Sim Eq (finish e) (finish' e)) (hgrows : ∀ e, Grows (finish e))
    (name : String) (isScoped : Bool) : ρ.Sim Eq (do
      if ← eat .colon then
        let here ← position
        match scanTo .leftBrace (fun k => k == .eof || k == .semicolon) (ρ.source.fromIndex here) here with
        | .found i => seek i
        | .cut i =>
          seek i
          fail "'\x7b'"
      let _ ← expect .leftBrace
      let values ← enumEntries (← rounds) 0 #[]
      let _ ← expect .rightBrace
      finish ⟨name, ρ.source.path, values.toList, isScoped⟩) (do
      if ← eat .colon then
        let here ← position
        match scanTo .leftBrace (fun k => k == .eof || k == .semicolon) (ρ.target.fromIndex here) here with
        | .found i => seek i
        | .cut i =>
          seek i
          fail "'\x7b'"
      let _ ← expect .leftBrace
      let values ← enumEntries (← rounds) 0 #[]
      let _ ← expect .rightBrace
      finish' ⟨name, ρ.target.path, values.toList, isScoped⟩) := by
  rw [ρ.path]
  dsimp only
  refine (eat_sim _).bind_eq fun _ => .ite (Sim.position fun here =>
    SimAt.of_le_lastIndex fun hhere => ?_) (enumBlock_sim hfinish _ _ _)
  have hle := le_index_scanTo .leftBrace (fun k => k == .eof || k == .semicolon)
    (ρ.source.fromIndex here) here
  have hlt := @scanTo_within .leftBrace (fun k => k == .eof || k == .semicolon) rfl _ here
    (ρ.source.exists_eof_fromIndex ρ.endsWithEof hhere)
  rw [ρ.source.length_fromIndex, ρ.source.size_eq_lastIndex_succ] at hlt
  have follow := fun hw : ρ.Window here (scanTo .leftBrace (fun k => k == .eof || k == .semicolon)
      (ρ.source.fromIndex here) here).index => hw.scanTo_eq (by omega) (Nat.le_refl _)
  split
  · next i heq =>
    rw [heq] at hle hlt follow
    dsimp only [Stop.index_found, Stop.shift_found] at hle hlt follow
    exact .seek_bind_of_window hle (Nat.le_refl i) (by omega) (fun _ => enumBlock_grows finish hgrows _ _ _)
      fun hw => ⟨_, by rw [follow hw], fun _ => enumBlock_sim hfinish _ _ _⟩
  · next i heq =>
    rw [heq] at hle hlt follow
    dsimp only [Stop.index_cut, Stop.shift_cut] at hle hlt follow
    exact .seek_bind_of_window hle (Nat.le_refl i) (by omega)
      (fun _ => (fail_grows _).bind fun _ => enumBlock_grows finish hgrows _ _ _)
      fun hw => ⟨_, by rw [follow hw], fun _ => fail_bind_sim _ _ _ _⟩

/-- An enum read with ends that follow one another follows. -/
theorem enumWith_sim {finish finish' : EnumDecl → Parser EnumDecl}
    (hfinish : ∀ e, ρ.Sim Eq (finish e) (finish' e)) (hgrows : ∀ e, Grows (finish e)) :
    ρ.Sim Eq (enumWith finish) (enumWith finish') := by
  unfold enumWith
  refine (expect_sim _).bind (Token.exists_moved _) fun mk mk' _ => ?_
  refine decoratorList_sim.bind_eq fun ds => ?_
  refine (eat_sim _).bind_eq fun _ => ?_
  refine (expect_sim _).bind (Token.exists_moved _) fun _ _ _ => ?_
  refine (eat_sim _).bind_eq fun b =>
    .ite ((Sim.pure rfl).bind_eq fun sc => ?_) ((eat_sim _).bind_eq fun sc => ?_)
  all_goals
    refine Sim.position fun start => SimAt.read (SimAt.of_le_lastIndex fun hstart => ?_)
    have hlt := takeWhile_within (ρ.source.exists_eof_fromIndex ρ.endsWithEof hstart)
    rw [ρ.source.length_fromIndex, ρ.source.size_eq_lastIndex_succ] at hlt
    refine .seek_bind_of_window (Nat.le_add_right _ _) (Nat.le_refl _) (by omega)
      (fun _ => ?_) fun hw => ?_
    · dsimp only
      split
      · exact (Grows.pure _).bind fun _ =>
          .ite ((warn_grows _ _).bind fun _ => enumTail_grows finish hgrows _ _ _) (enumTail_grows finish hgrows _ _ _)
      · exact (fail_grows _).bind fun _ =>
          .ite ((warn_grows _ _).bind fun _ => enumTail_grows finish hgrows _ _ _) (enumTail_grows finish hgrows _ _ _)
    -- the names read in the target look like those of the source
    have hnames := hw.takeWhile_eq (by omega) (Nat.le_refl _)
    generalize (ρ.target.fromIndex (start + ρ.offset)).takeWhile (·.kind == .identifier) = N' at hnames ⊢
    generalize (ρ.source.fromIndex start).takeWhile (·.kind == .identifier) = N at hnames ⊢
    have hlen : N'.length = N.length := by simpa using congrArg List.length hnames
    dsimp only
    rw [hlen, show start + ρ.offset + N.length = start + N.length + ρ.offset by omega]
    refine ⟨_, rfl, fun _ => ?_⟩
    have hlast := Token.getLast?_texts hnames
    generalize N.getLast? = o at hlast ⊢
    generalize N'.getLast? = o' at hlast ⊢
    cases hlast with
    | none => exact fail_bind_sim _ _ _ _
    | some ht =>
      dsimp only
      rw [ht]
      exact (Sim.pure rfl).bind_eq fun _ =>
        .ite ((warn_sim _ _ _ _).bind_eq fun _ => enumTail_sim hfinish hgrows _ _) (enumTail_sim hfinish hgrows _ _)

theorem enumDecl_sim : ρ.Sim Eq enumDecl enumDecl := by
  rw [enumDecl_eq_enumWith]
  exact enumWith_sim (fun _ => (expect_sim _).bind (Token.exists_moved _) fun _ _ _ => .pure rfl)
    fun _ => (expect_grows _).bind fun _ => .pure _

/-- A bind follows when its first step does and what comes after follows for related values,
given that what comes after moves forward on the source. -/
theorem SimAt.bind_of_grows {γ δ' : Type} {start : Nat} {RA : α → β → Prop} {RB : γ → δ' → Prop}
    {p : Parser α} {q : Parser β} {f : α → Parser γ} {g : β → Parser δ'}
    (hp : ρ.SimAt start RA p q) (hfg : ∀ a, Grows (f a))
    (hf : ∀ a b, RA a b → ρ.Sim RB (f a) (g b)) : ρ.SimAt start RB (p >>= f) (q >>= g) := by
  intro s hstart hs
  obtain ⟨⟨h₁, h₂⟩, hrel₁⟩ := hp s hstart hs
  rw [runOn_bind]
  rcases hrun : p.runOn ρ.source s with ⟨_ | a, s₁⟩ <;> rw [hrun] at h₁ h₂ hrel₁
  · refine ⟨⟨h₁, h₂⟩, fun t ht hw => ?_⟩
    obtain ⟨hpos, hrel⟩ := hrel₁ t ht hw
    rw [runOn_bind]
    rcases hq : q.runOn ρ.target t with ⟨_ | b, t₁⟩ <;> rw [hq] at hpos hrel
    · exact ⟨hpos, trivial⟩
    · exact hrel.elim
  · have hadv := hfg a ρ.source s₁ h₂
    refine ⟨⟨Nat.le_trans h₁ hadv.pos_le, hadv.le_last⟩, fun t ht hw => ?_⟩
    obtain ⟨hpos, hrel⟩ := hrel₁ t ht (hw.mono (Nat.le_refl _) hadv.pos_le)
    rw [runOn_bind]
    rcases hq : q.runOn ρ.target t with ⟨_ | b, t₁⟩ <;> rw [hq] at hpos hrel
    · exact hrel.elim
    · exact (hf a b hrel s₁.pos s₁ rfl h₂).2 t₁ hpos (hw.mono h₁ (Nat.le_refl _))

theorem Sim.bind_of_grows {γ δ' : Type} {RA : α → β → Prop} {RB : γ → δ' → Prop}
    {p : Parser α} {q : Parser β} {f : α → Parser γ} {g : β → Parser δ'}
    (hp : ρ.Sim RA p q) (hfg : ∀ a, Grows (f a))
    (hf : ∀ a b, RA a b → ρ.Sim RB (f a) (g b)) : ρ.Sim RB (p >>= f) (q >>= g) :=
  fun start => (hp start).bind_of_grows hfg hf

/-- Recovery from a failed declaration follows: the cursor compared with the start of the
declaration stands as far on in the target. -/
theorem recover_sim {R : FileDecls → FileDecls → Prop} (start : Nat) {d d' : FileDecls}
    (h : R d d') (e e' : ParseError) :
    ρ.Sim R (recover start d e) (recover (start + ρ.offset) d' e') := by
  unfold recover
  refine (report_sim _ _).bind_eq fun _ => Sim.position fun pos => ?_
  have hpos : (pos + ρ.offset == start + ρ.offset) = (pos == start) := by simp
  rw [hpos]
  exact .ite ((advance_sim.bind (Token.exists_moved _) fun _ _ _ => .pure h) pos) (Sim.pure h pos)

/-- The walk over the tokens follows, the records it reads past the first `k` moved. -/
theorem declarations_sim (k fuel : Nat) {d d' : FileDecls} (hk : k ≤ d.records.length)
    (h : d' = d.moveFrom ρ.shift k) :
    ρ.Sim (fun r r' => r' = r.moveFrom ρ.shift k) (declarations fuel d) (declarations fuel d') := by
  induction fuel generalizing d d' with
  | zero => exact .pure h
  | succ n ih =>
    unfold declarations
    refine atEnd_sim.bind_eq fun _ => .ite (.pure h) (Sim.position fun start => ?_)
    refine (current_sim start).bind (Token.exists_moved _) fun t t' hm => ?_
    rw [hm.kind]
    -- each round keeps the records read before the boundary and moves the ones after it
    have next : ∀ a b : FileDecls, k ≤ a.records.length ∧ b = a.moveFrom ρ.shift k →
        ρ.Sim (fun r r' => r' = r.moveFrom ρ.shift k) (declarations n a) (declarations n b) :=
      fun _ _ hab => ih hab.1 hab.2
    dsimp only
    refine .ite ((Sim.tryCatch (record_sim.bind (fun _ => ⟨_, rfl⟩) fun r r' hr =>
        .pure ⟨?_, ?_⟩) fun e e' => recover_sim start ⟨hk, h⟩ e e').bind_of_grows
          (fun _ => declarations_grows _ _) next)
      (.ite ((Sim.tryCatch (enumDecl_sim.bind_eq fun e => .pure ⟨hk, ?_⟩) fun e e' =>
          recover_sim start ⟨hk, h⟩ e e').bind_of_grows (fun _ => declarations_grows _ _) next)
        (advance_sim.bind (Token.exists_moved _) fun _ _ _ =>
          (Sim.pure ⟨hk, h⟩).bind_of_grows (fun _ => declarations_grows _ _) next))
    · simp only [List.length_append]
      omega
    · rw [hr, h, FileDecls.moveFrom_addRecord _ hk]
    · rw [h, FileDecls.moveFrom_addEnum]

end Relocation

end TypeReflection
