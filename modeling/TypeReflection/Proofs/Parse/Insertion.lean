import Mathlib.Data.List.Forall2
import TypeReflection.Proofs.Parse.Relocate
import TypeReflection.Proofs.Parse.Names
import TypeReflection.Proofs.Token.Join
import TypeReflection.Proofs.Token.Markers

/-!
# Text inserted between declarations

The parser reflects only what its markers open and passes over every other token, so text with
no marker in it, inserted between the declarations of a header, should change nothing that is
reflected. That holds once the scanner is back in step after the inserted text. The scanner reads
a quoted text or a comment on to its end, so a piece left open at the end of the inserted text runs
on into what follows: a `"` in a character literal opens a quoted text that swallows the rest of
the header (`char_literal_quote_hides_record`). So the inserted text must be settled
(`Scan.Settled`: its scan ends on a blank, a `;` or a `}`), and so must the header before it.
That header must also parse without errors: a declaration left unfinished at its end would read on
into the inserted text.

Then the declarations are those of the header without the insertion, with the records after it
read on lines further down by the line feeds inserted (`parseHeader_insert_unreflected`). The
proof follows the walk over the header in three stretches.

* A settled header that parses without errors is read alike when more text follows it
  (`parseHeader_after_settled`). Every declaration it reads ends on its closing `;`, so all that a
  round reads lies before the end of the header's tokens (`TokenPrefix.closed_run`), and the round
  is read alike where those tokens stand in the same places (`TokenPrefix.walk`).
* The tokens of the inserted text are no markers, so the walk passes over them one a round
  (`Parser.declarations_skip`).
* The tokens after it are those of the header without the insertion, moved on by its bytes and
  line feeds (`Scan.scanFrom_moved`), and the walk over them follows the walk over the shorter
  header (`Relocation.declarations_sim`).
-/

set_option autoImplicit false

namespace TypeReflection

namespace Scan

/-! ## Scanning past a settled text -/

/-- Reading characters moves the line on by their line feeds. -/
theorem line_after (p : Position) (cs : List Char) : (p.after cs).line = p.line + cs.count '\n' := by
  induction cs generalizing p with
  | nil => rfl
  | cons c cs ih =>
    rw [show p.after (c :: cs) = (p.next c).after cs from rfl, ih, List.count_cons]
    by_cases hc : c = '\n'
    · simp [Position.next, hc]
      omega
    · simp [Position.next, hc]

/-- What a scan adds to the tokens found before it does not depend on them. -/
theorem scanFrom_tokens_append (pre : Array Token) {found found' : TokenStream}
    (h : found.tokens = pre ++ found'.tokens) (cs : List Char) (pos : Position) :
    (scanFrom cs pos found).tokens = pre ++ (scanFrom cs pos found').tokens := by
  fun_induction scanFrom cs pos found generalizing found' with
  | case1 pos found => simp [scanFrom, h]
  | case2 pos found c rest piece more hstep taken span found₁ =>
    rename_i ih
    rw [scanFrom]
    simp only [hstep]
    apply ih
    cases piece with
    | token kind => simp [found₁, h, taken, span]
    | gap | malformedNumber | unterminatedString | stray => simpa [found₁] using h

/-- A settled text followed by more is scanned into its own tokens, less its end of input, and
then those of what follows, scanned from where the text ends. -/
theorem tokens_scanFrom_append {cs : List Char} (h : Settled cs) (pos : Position) (ys : List Char) :
    (scanFrom (cs ++ ys) pos ⟨#[], #[]⟩).tokens =
      (scanFrom cs pos ⟨#[], #[]⟩).tokens.pop ++ (scanFrom ys (pos.after cs) ⟨#[], #[]⟩).tokens := by
  obtain ⟨found, hown, hjoined⟩ := scanFrom_append h pos ⟨#[], #[]⟩
  rw [hjoined, hown, Array.pop_push]
  exact scanFrom_tokens_append found.tokens (by simp) ys _

theorem size_scanFrom_pos (cs : List Char) (pos : Position) (found : TokenStream) :
    0 < (scanFrom cs pos found).tokens.size := by
  obtain ⟨mid, span, h, -⟩ := scanFrom_tokens cs pos found
  rw [h, Array.size_push]
  exact Nat.succ_pos _

/-- Before its last token, a scan holds no end of input. -/
theorem ne_eof_of_mem_pop {cs : List Char} {pos : Position} {t : Token}
    (ht : t ∈ (scanFrom cs pos ⟨#[], #[]⟩).tokens.pop) : t.kind ≠ .eof := by
  obtain ⟨mid, span, h, hmid⟩ := scanFrom_tokens cs pos ⟨#[], #[]⟩
  rw [h, Array.pop_push, Array.empty_append] at ht
  exact hmid t ht

/-- A scan of a text with no marker ahead finds no marker, wherever it starts. -/
theorem not_marker_of_mem {cs : List Char} (h : markerAhead cs = false) {pos : Position} {t : Token}
    (ht : t ∈ (scanFrom cs pos ⟨#[], #[]⟩).tokens) : t.kind.isMarker = false := by
  have hnone := hasMarkers_scanFrom cs pos ⟨#[], #[]⟩
  rw [h, Bool.or_false] at hnone
  simp only [TokenStream.hasMarkers, List.any_toArray, List.any_nil, Array.any_eq_false] at hnone
  obtain ⟨i, hi, rfl⟩ := Array.getElem_of_mem ht
  simpa using hnone i hi

/-! ## Scanning from a place further on -/

/-- A token spanning the same characters from a place moved on by `δ` is moved on by `δ`. -/
theorem moved_spanOver {δ : Shift} {pos pos' : Position} (hoff : pos'.offset = pos.offset + δ.bytes)
    (hline : pos'.line = pos.line + δ.lines) (kind : TokenKind) (text : String) (cs : List Char) :
    Token.Moved δ ⟨kind, text, pos.spanOver cs⟩ ⟨kind, text, pos'.spanOver cs⟩ := by
  refine ⟨rfl, rfl, hoff, ?_, hline⟩
  simp only [Position.spanOver, offset_after, hoff]
  omega

/-- Scanning a text from a place moved on by `δ` gives its tokens moved on by `δ`: the scanner
reads the characters alone and only counts where they stand. -/
theorem scanFrom_moved {δ : Shift} {pos pos' : Position} (hoff : pos'.offset = pos.offset + δ.bytes)
    (hline : pos'.line = pos.line + δ.lines) {found found' : TokenStream}
    (h : List.Forall₂ (Token.Moved δ) found.tokens.toList found'.tokens.toList) (cs : List Char) :
    List.Forall₂ (Token.Moved δ) (scanFrom cs pos found).tokens.toList
      (scanFrom cs pos' found').tokens.toList := by
  fun_induction scanFrom cs pos found generalizing pos' found' with
  | case1 pos found =>
    rw [scanFrom]
    simp only [Array.toList_push]
    exact List.rel_append h (.cons (moved_spanOver hoff hline _ _ _) .nil)
  | case2 pos found c rest piece more hstep taken span found₁ =>
    rename_i ih
    rw [scanFrom]
    simp only [hstep]
    -- the place after the piece is moved on as far, and so is the token the piece gives
    refine ih (by simp only [taken, offset_after, hoff]; omega) (by simp only [taken, line_after, hline]; omega) ?_
    cases piece with
    | token kind =>
      simp only [found₁, Array.toList_push]
      exact List.rel_append h (.cons (moved_spanOver hoff hline _ _ _) .nil)
    | gap | malformedNumber | unterminatedString | stray => exact h

end Scan

namespace ParseInput

open Scan

theorem tokenAt_append_left {input : ParseInput} {a b : Array Token} (h : input.tokens = a ++ b)
    {i : Nat} (hi : i < a.size) : input.tokenAt i = a[i] := by
  rw [input.tokenAt_of_lt (by rw [h, Array.size_append]; omega)]
  simp only [h, Array.getElem_append_left hi]

theorem tokenAt_append_right {input : ParseInput} {a b : Array Token} (h : input.tokens = a ++ b)
    {i : Nat} (hi : i < b.size) : input.tokenAt (a.size + i) = b[i] := by
  rw [input.tokenAt_of_lt (by rw [h, Array.size_append]; omega)]
  simp only [h, Array.getElem_append_right (Nat.le_add_right _ _), Nat.add_sub_cancel_left]

/-- The last index is the number of tokens before the end of input. -/
theorem lastIndex_eq_size_pop (input : ParseInput) : input.lastIndex = input.tokens.pop.size := by
  rw [lastIndex, Array.size_pop]

theorem ofHeader_path (text path : String) : (ofHeader text path).path = path := by
  unfold ofHeader ofTokens
  split
  · split <;> rfl
  · rfl

/-- A settled header followed by more text: its tokens less the end of input come first, and then
those of the text after it, scanned from where the header ends. -/
theorem ofHeader_append_tokens {X : String} (hX : Settled X.toList) (Z path : String) :
    (ofHeader (X ++ Z) path).tokens =
      (ofHeader X path).tokens.pop ++
        (scanFrom Z.toList (Position.start.after X.toList) ⟨#[], #[]⟩).tokens := by
  rw [ofHeader_tokens, ofHeader_tokens, tokenize, tokenize, String.toList_append,
    tokens_scanFrom_append hX]

end ParseInput

theorem Diagnostics.Extends.errors_size_le {d d' : Diagnostics} (h : d.Extends d') :
    d.errors.size ≤ d'.errors.size := by
  simpa using h.errors.length_le

theorem RecordDecl.moveBy_none (r : RecordDecl) : r.moveBy Shift.none = r := by
  simp [RecordDecl.moveBy, PropertyDecl.moveBy, MethodDecl.moveBy, Shift.none]

/-- A kind that is no marker opens no declaration of the walk. -/
theorem TokenKind.opens_nothing_of_not_marker {k : TokenKind} (hk : k.isMarker = false) :
    (k == .classMarker || k == .structMarker) = false ∧ (k == .enumMarker) = false := by
  revert hk
  cases k <;> decide

namespace Parser

/-! ## One round of the walk -/

/-- One round of the walk over a header, from the token `t` at `start`: a record or an enum read
with recovery, or the token passed over. -/
def walkRound (start : Nat) (t : Token) (decls : FileDecls) : Parser FileDecls :=
  if t.kind == .classMarker || t.kind == .structMarker then
    tryCatch (do
        let r ← record
        return { decls with records := decls.records ++ [r] })
      (recover start decls)
  else if t.kind == .enumMarker then
    tryCatch (do
        let e ← enumDecl
        return { decls with enums := decls.enums ++ [e] })
      (recover start decls)
  else do
    let _ ← advance
    pure decls

theorem declarations_succ (fuel : Nat) (decls : FileDecls) :
    declarations (fuel + 1) decls = (do
      if ← atEnd then return decls
      let start ← position
      let t ← current
      let decls ← walkRound start t decls
      declarations fuel decls) := by
  rw [declarations]
  simp only [walkRound, ← ite_bind_eq, bind_assoc, pure_bind]

theorem walkRound_grows (start : Nat) (t : Token) (decls : FileDecls) :
    Grows (walkRound start t decls) :=
  .ite (.tryCatch (record_grows.bind fun _ => .pure _) (recover_grows _ _))
    (.ite (.tryCatch (enumDecl_grows.bind fun _ => .pure _) (recover_grows _ _))
      (advance_grows.bind fun _ => .pure _))

/-- A round never fails: a declaration that cannot be read is recovered from. -/
theorem walkRound_ok (input : ParseInput) (s : ParseState) (start : Nat) (t : Token)
    (decls : FileDecls) :
    ∃ d s', (walkRound start t decls).runOn input s = (.ok d, s') := by
  unfold walkRound
  split
  · exact recovered_ok input _ start decls s
  split
  · exact recovered_ok input _ start decls s
  · exact ⟨decls, _, by rw [runOn_bind_of_ok _ _ (runOn_advance _ _), runOn_pure]⟩

variable {input : ParseInput} {s : ParseState}

theorem runOn_declarations_end {fuel : Nat} {decls : FileDecls}
    (hend : (input.tokenAt s.pos).kind = .eof) :
    (declarations (fuel + 1) decls).runOn input s = (.ok decls, s) := by
  rw [declarations_succ, runOn_bind_of_ok _ _ (runOn_atEnd _ _)]
  simp [hend]

theorem runOn_declarations_round {fuel : Nat} {decls : FileDecls}
    (hne : (input.tokenAt s.pos).kind ≠ .eof) :
    (declarations (fuel + 1) decls).runOn input s =
      (walkRound s.pos (input.tokenAt s.pos) decls >>= declarations fuel).runOn input s := by
  rw [declarations_succ, runOn_bind_of_ok _ _ (runOn_atEnd _ _), if_neg (by simpa using hne),
    runOn_bind_of_ok _ _ (runOn_position _ _), runOn_bind_of_ok _ _ (runOn_current _ _)]

/-- A round on a token that is no marker passes it over. -/
theorem walkRound_of_not_marker {t : Token} (hk : t.kind.isMarker = false) (start : Nat)
    (decls : FileDecls) : walkRound start t decls = (advance >>= fun _ => pure decls) := by
  obtain ⟨h₁, h₂⟩ := TokenKind.opens_nothing_of_not_marker hk
  simp only [walkRound, h₁, h₂, Bool.false_eq_true, if_false]

/-- A read with recovery that reports nothing succeeded without it. -/
theorem tryCatch_recover_clean {p : Parser FileDecls} (hg : Grows p) {start : Nat} {decls d : FileDecls}
    {s' : ParseState} (hs : s.pos ≤ input.lastIndex)
    (hrun : (tryCatch p (recover start decls)).runOn input s = (.ok d, s'))
    (hclean : s'.diagnostics.errors.size ≤ s.diagnostics.errors.size) :
    p.runOn input s = (.ok d, s') := by
  rw [runOn_tryCatch] at hrun
  rcases hp : p.runOn input s with ⟨e | a, s₀⟩ <;> rw [hp] at hrun
  · -- recovery reports the failure, so more is reported than before
    have hgrow := ((hg.advances hs hp).reports).errors_size_le
    have hrec : ((recover start decls e).runOn input s₀).2.diagnostics.errors.size =
        s₀.diagnostics.errors.size + 1 := by
      unfold recover
      rw [runOn_bind_of_ok _ _ (runOn_report _ _ _), runOn_bind_of_ok _ _ (runOn_position _ _)]
      split
      · rw [runOn_bind_of_ok _ _ (runOn_advance _ _)]
        simp
      · simp
    simp only at hrun
    rw [hrun] at hrec
    dsimp only at hrec
    omega
  · exact hrun

/-- The walk passes over tokens that are neither markers nor the end of input, one a round. -/
theorem declarations_skip (hin : input.EndsWithEof) (d : FileDecls) (m : Nat) (t : ParseState)
    (hskip : ∀ i, t.pos ≤ i → i < t.pos + m →
      (input.tokenAt i).kind.isMarker = false ∧ (input.tokenAt i).kind ≠ .eof) :
    ∃ t', t'.pos = t.pos + m ∧
      ∀ F, (declarations (F + m) d).runOn input t = (declarations F d).runOn input t' := by
  induction m generalizing t with
  | zero => exact ⟨t, rfl, fun F => rfl⟩
  | succ m ih =>
    obtain ⟨hk, hne⟩ := hskip t.pos (Nat.le_refl _) (by omega)
    have hlt := input.lt_lastIndex_of_ne_eof hin hne
    have hpass : (walkRound t.pos (input.tokenAt t.pos) d).runOn input t =
        (.ok d, { t with pos := t.pos + 1 }) := by
      rw [walkRound_of_not_marker hk, runOn_bind_of_ok _ _ (runOn_advance _ _),
        ParseInput.next_of_lt hlt]
      rfl
    obtain ⟨t', ht', hwalk⟩ := ih { t with pos := t.pos + 1 } fun i h₁ h₂ =>
      hskip i (Nat.le_of_succ_le h₁) (by dsimp only at h₂; omega)
    refine ⟨t', by rw [ht']; dsimp only; omega, fun F => ?_⟩
    rw [← Nat.add_assoc, runOn_declarations_round hne, runOn_bind_of_ok _ _ hpass]
    exact hwalk F

end Parser

/-! ## A header read on its own and with more after it -/

/-- The tokens of `source` before its end of input stand in the same places in `target`, which
reaches at least as far: `source` is a header read on its own, `target` the same header with more
text after it. -/
structure TokenPrefix where
  source : ParseInput
  target : ParseInput
  path : target.path = source.path
  endsWithEof : source.EndsWithEof
  lastIndex_le : source.lastIndex ≤ target.lastIndex
  agree : ∀ i < source.lastIndex, target.tokenAt i = source.tokenAt i

namespace TokenPrefix

open TypeReflection.Parser TypeReflection.Scan

variable (π : TokenPrefix)

/-- The target follows the source in place. -/
def relocation : Relocation where
  source := π.source
  target := π.target
  offset := 0
  shift := Shift.none
  path := π.path
  size := by
    rw [π.source.size_eq_lastIndex_succ, π.target.size_eq_lastIndex_succ]
    exact Nat.succ_le_succ π.lastIndex_le
  endsWithEof := π.endsWithEof

@[simp] theorem relocation_source : π.relocation.source = π.source := rfl

@[simp] theorem relocation_target : π.relocation.target = π.target := rfl

@[simp] theorem relocation_offset : π.relocation.offset = 0 := rfl

@[simp] theorem relocation_shift : π.relocation.shift = Shift.none := rfl

/-- Every window that stops before the end of the source stands in the target. -/
theorem window {lo hi : Nat} (h : hi < π.source.lastIndex) : π.relocation.Window lo hi where
  within := Nat.le_trans (Nat.le_of_lt h) π.lastIndex_le
  ends := .inl h
  tokens := fun i _ hi' => by
    show (π.source.tokenAt i).Moved Shift.none (π.target.tokenAt (i + 0))
    rw [Nat.add_zero, π.agree i (by omega)]
    exact .refl _

variable {π}

/-- A step closed by a `;` that follows itself in place reads in the target what it reads in the
source: what it reads before its `;` lies before the end of the source, and so does the `;`. -/
theorem closed_run {α β : Type} {R : α → β → Prop} {p : Parser α} {q : Parser β}
    (hsim : π.relocation.Sim R p q) {s s' : ParseState} {a : α} (hs : s.pos ≤ π.source.lastIndex)
    (hrun : (p >>= fun a => expect .semicolon >>= fun _ => pure a).runOn π.source s = (.ok a, s'))
    (t : ParseState) (ht : t.pos = s.pos) :
    ∃ b t', R a b ∧ t'.pos = s'.pos ∧
      (q >>= fun b => expect .semicolon >>= fun _ => pure b).runOn π.target t = (.ok b, t') := by
  rw [runOn_bind] at hrun
  rcases hp : p.runOn π.source s with ⟨_ | a₁, s₁⟩ <;> rw [hp] at hrun
  · cases hrun
  by_cases hk : (π.source.tokenAt s₁.pos).kind = .semicolon
  swap
  · simp only [runOn_bind, runOn_expect, if_neg hk] at hrun
    cases hrun
  simp only [runOn_bind, runOn_expect, if_pos hk, runOn_pure] at hrun
  obtain ⟨ha, rfl⟩ := Prod.mk.inj hrun
  cases ha
  -- the step stops on the `;`, which is no end of input
  have hlt : s₁.pos < π.source.lastIndex :=
    π.source.lt_lastIndex_of_ne_eof π.endsWithEof (by rw [hk]; decide)
  obtain ⟨-, hrel⟩ := hsim s.pos s rfl hs
  simp only [relocation_source, relocation_target, relocation_offset, Nat.add_zero, hp] at hrel
  obtain ⟨hpos, hout⟩ := hrel t ht (π.window hlt)
  rcases hq : q.runOn π.target t with ⟨_ | b, t₁⟩ <;> rw [hq] at hpos hout
  · exact hout.elim
  have hk' : (π.target.tokenAt t₁.pos).kind = .semicolon := by
    rw [hpos, π.agree _ hlt, hk]
  have hnext : π.target.next t₁.pos = π.source.next s₁.pos := by
    rw [hpos, ParseInput.next_of_lt hlt,
      ParseInput.next_of_lt (Nat.lt_of_lt_of_le hlt π.lastIndex_le)]
  refine ⟨b, { t₁ with pos := π.target.next t₁.pos }, hout, hnext, ?_⟩
  rw [runOn_bind_of_ok _ _ hq]
  simp only [runOn_bind, runOn_expect, if_pos hk', runOn_pure]

/-- `p` reads in the target what it reads in the source, wherever it succeeds from a cursor before
the end of the source. -/
def Keeps {α : Type} (p : Parser α) : Prop :=
  ∀ ⦃s s' : ParseState⦄ ⦃a : α⦄, s.pos < π.source.lastIndex → p.runOn π.source s = (.ok a, s') →
    ∀ t : ParseState, t.pos = s.pos → ∃ t', t'.pos = s'.pos ∧ p.runOn π.target t = (.ok a, t')

theorem Keeps.map {α β : Type} {p : Parser α} (hp : π.Keeps p) (f : α → β) :
    π.Keeps (p >>= fun a => pure (f a)) := by
  intro s s' b hs hrun t ht
  rw [runOn_bind] at hrun
  rcases h : p.runOn π.source s with ⟨_ | a, s₁⟩ <;> rw [h] at hrun
  · cases hrun
  obtain ⟨ha, rfl⟩ := Prod.mk.inj hrun
  cases ha
  obtain ⟨t', ht', hq⟩ := hp hs h t ht
  exact ⟨t', ht', by rw [runOn_bind_of_ok _ _ hq, runOn_pure]⟩

theorem keeps_record : π.Keeps record := by
  intro s s' r hs hrun t ht
  rw [record_eq_recordWith, ← recordWith_bind] at hrun ⊢
  obtain ⟨b, t', hb, hpos, hq⟩ :=
    closed_run (Relocation.recordWith_sim fun _ _ h => .pure h) (Nat.le_of_lt hs) hrun t ht
  rw [show b = r from hb.trans (RecordDecl.moveBy_none r)] at hq
  exact ⟨t', hpos, hq⟩

theorem keeps_enumDecl : π.Keeps enumDecl := by
  intro s s' e hs hrun t ht
  rw [enumDecl_eq_enumWith, ← enumWith_bind] at hrun ⊢
  obtain ⟨b, t', rfl, hpos, hq⟩ :=
    closed_run (Relocation.enumWith_sim (fun _ => .pure rfl) fun _ => .pure _) (Nat.le_of_lt hs) hrun t ht
  exact ⟨t', hpos, hq⟩

theorem keeps_advance : π.Keeps advance := by
  intro s s' a hs hrun t ht
  rw [runOn_advance, ParseInput.next_of_lt hs] at hrun
  obtain ⟨ha, rfl⟩ := Prod.mk.inj hrun
  cases ha
  refine ⟨{ t with pos := t.pos + 1 }, by rw [ht], ?_⟩
  rw [runOn_advance, ht, ParseInput.next_of_lt (Nat.lt_of_lt_of_le hs π.lastIndex_le),
    π.agree _ hs]

/-- A round that reports nothing reads in the target what it reads in the source. -/
theorem walkRound_keeps {s s₁ : ParseState} {start : Nat} {tok : Token} {d d₁ : FileDecls}
    (hs : s.pos < π.source.lastIndex)
    (hround : (walkRound start tok d).runOn π.source s = (.ok d₁, s₁))
    (hclean : s₁.diagnostics.errors.size ≤ s.diagnostics.errors.size) (t : ParseState)
    (ht : t.pos = s.pos) :
    ∃ t₁, t₁.pos = s₁.pos ∧ (walkRound start tok d).runOn π.target t = (.ok d₁, t₁) := by
  -- a declaration read with recovery succeeded on its own, and then succeeds in the target
  have recovered : ∀ {p : Parser FileDecls}, Grows p → π.Keeps p →
      (tryCatch p (recover start d)).runOn π.source s = (.ok d₁, s₁) →
      ∃ t₁, t₁.pos = s₁.pos ∧ (tryCatch p (recover start d)).runOn π.target t = (.ok d₁, t₁) := by
    intro p hg hp hrun
    obtain ⟨t₁, ht₁, hq⟩ := hp hs (tryCatch_recover_clean hg (Nat.le_of_lt hs) hrun hclean) t ht
    exact ⟨t₁, ht₁, by rw [runOn_tryCatch, hq]⟩
  unfold walkRound at hround ⊢
  split
  next hrecord =>
    rw [if_pos hrecord] at hround
    exact recovered (record_grows.bind fun _ => .pure _) (keeps_record.map _) hround
  next hrecord =>
    rw [if_neg hrecord] at hround
    split
    next henum =>
      rw [if_pos henum] at hround
      exact recovered (enumDecl_grows.bind fun _ => .pure _) (keeps_enumDecl.map _) hround
    next henum =>
      rw [if_neg henum] at hround
      exact (keeps_advance.map _) hs hround t ht

/-- A walk over the source that reports nothing is read alike in the target: from the same cursor,
given as many more rounds as it took, the target's walk comes to where the source's stopped, with
the same declarations. -/
theorem walk (fuel : Nat) (d : FileDecls) (s : ParseState) (hs : s.pos ≤ π.source.lastIndex)
    {d' : FileDecls} {s' : ParseState} (hrun : (declarations fuel d).runOn π.source s = (.ok d', s'))
    (hclean : s'.diagnostics.errors.size ≤ s.diagnostics.errors.size) (t : ParseState)
    (ht : t.pos = s.pos) :
    ∃ r t', t'.pos = s'.pos ∧
      ∀ F, (declarations (F + r) d).runOn π.target t = (declarations F d').runOn π.target t' := by
  induction fuel generalizing d s t with
  | zero =>
    obtain ⟨hd, rfl⟩ := Prod.mk.inj hrun
    cases hd
    exact ⟨0, t, ht, fun F => rfl⟩
  | succ n ih =>
    by_cases hend : (π.source.tokenAt s.pos).kind = .eof
    · rw [runOn_declarations_end hend] at hrun
      obtain ⟨hd, rfl⟩ := Prod.mk.inj hrun
      cases hd
      exact ⟨0, t, ht, fun F => rfl⟩
    have hlt := π.source.lt_lastIndex_of_ne_eof π.endsWithEof hend
    obtain ⟨d₁, s₁, hround⟩ := walkRound_ok π.source s s.pos (π.source.tokenAt s.pos) d
    rw [runOn_declarations_round hend, runOn_bind_of_ok _ _ hround] at hrun
    -- the round reports nothing, since the whole walk reports nothing
    have h₁ := (walkRound_grows _ _ _).advances hs hround
    have h₂ := (declarations_grows n d₁).advances h₁.le_last hrun
    have hclean₁ : s₁.diagnostics.errors.size ≤ s.diagnostics.errors.size :=
      Nat.le_trans h₂.reports.errors_size_le hclean
    obtain ⟨t₁, ht₁, hround'⟩ := walkRound_keeps hlt hround hclean₁ t ht
    obtain ⟨r, t', ht', hwalk⟩ :=
      ih d₁ s₁ h₁.le_last hrun (Nat.le_trans hclean h₁.reports.errors_size_le) t₁ ht₁
    refine ⟨r + 1, t', ht', fun F => ?_⟩
    have htok : π.target.tokenAt t.pos = π.source.tokenAt s.pos := by
      rw [ht]
      exact π.agree _ hlt
    rw [← Nat.add_assoc, runOn_declarations_round (by rw [htok]; exact hend), htok, ht,
      runOn_bind_of_ok _ _ hround']
    exact hwalk F

/-- A header read on its own and followed by more: the target's tokens are the source's, less its
end of input, and then at least one more. -/
def ofLayout (source target : ParseInput) (rest : Array Token)
    (h : target.tokens = source.tokens.pop ++ rest) (hrest : 0 < rest.size)
    (hpath : target.path = source.path) (hin : source.EndsWithEof) : TokenPrefix where
  source := source
  target := target
  path := hpath
  endsWithEof := hin
  lastIndex_le := by
    simp only [ParseInput.lastIndex, h, Array.size_append, Array.size_pop]
    omega
  agree := fun i hi => by
    have hi' : i < source.tokens.pop.size := source.lastIndex_eq_size_pop ▸ hi
    rw [ParseInput.tokenAt_append_left h hi', Array.getElem_pop,
      source.tokenAt_of_lt (by simp at hi'; omega)]

/-- A settled header read on its own and followed by the text `Z`. -/
def ofSettled {X : String} (hX : Settled X.toList) (Z path : String) : TokenPrefix :=
  ofLayout (ParseInput.ofHeader X path) (ParseInput.ofHeader (X ++ Z) path) _
    (ParseInput.ofHeader_append_tokens hX Z path) (size_scanFrom_pos _ _ _)
    (by rw [ParseInput.ofHeader_path, ParseInput.ofHeader_path]) (ParseInput.ofHeader_endsWithEof X path)

@[simp] theorem ofSettled_target {X : String} (hX : Settled X.toList) (Z path : String) :
    (ofSettled hX Z path).target = ParseInput.ofHeader (X ++ Z) path := rfl

end TokenPrefix

open TypeReflection.Parser TypeReflection.Scan

theorem parseHeader_run (text path : String) :
    ∃ s, (declarations ((ParseInput.ofHeader text path).tokens.size + 1) ⟨path, [], []⟩).runOn
        (ParseInput.ofHeader text path) ⟨0, ⟨#[], (tokenize text).issues.map (Warning.ofIssue path)⟩⟩ =
        (.ok (parseHeader text path).decls, s) ∧
      s.diagnostics = (parseHeader text path).diagnostics ∧
        s.pos = (ParseInput.ofHeader text path).lastIndex := by
  obtain ⟨d, s, hrun, hpos⟩ := (tokenize_parsesSafely text path).walk_ends ⟨path, [], []⟩
    ⟨#[], (tokenize text).issues.map (Warning.ofIssue path)⟩
  have hrun' : (declarations ((ParseInput.ofTokens (tokenize text).tokens path).tokens.size + 1)
      ⟨path, [], []⟩ (ParseInput.ofTokens (tokenize text).tokens path)).run
        ⟨0, ⟨#[], (tokenize text).issues.map (Warning.ofIssue path)⟩⟩ = (.ok d, s) := hrun
  have hparse : parseHeader text path = ⟨d, s.diagnostics⟩ := by
    simp only [parseHeader, parseTokens, hrun']
  rw [hparse]
  exact ⟨s, hrun, rfl, hpos⟩

/-- A settled header that parses without errors is read alike when more text follows it: the walk
over the longer header comes to the end of the first one's tokens with the declarations the first
one gives, and goes on from there. -/
theorem parseHeader_after_settled {X : String} (hX : Settled X.toList) {path : String}
    (hclean : (parseHeader X path).hasErrors = false) (Z : String) :
    ∃ u : ParseState, u.pos = (ParseInput.ofHeader X path).lastIndex ∧
      ((declarations ((ParseInput.ofHeader (X ++ Z) path).tokens.size + 1)
        (parseHeader X path).decls).runOn (ParseInput.ofHeader (X ++ Z) path) u).1 =
          .ok (parseHeader (X ++ Z) path).decls := by
  obtain ⟨sX, hrunX, hdiagX, hposX⟩ := parseHeader_run X path
  obtain ⟨sZ, hrunZ, -, -⟩ := parseHeader_run (X ++ Z) path
  have hnone : sX.diagnostics.errors.size ≤ 0 := by
    rw [hdiagX]
    simpa [ParsedFile.hasErrors, Diagnostics.hasErrors] using hclean
  obtain ⟨r, u, hu, hwalk⟩ := (TokenPrefix.ofSettled hX Z path).walk _ _ _ (Nat.zero_le _) hrunX
    hnone ⟨0, ⟨#[], (tokenize (X ++ Z)).issues.map (Warning.ofIssue path)⟩⟩ rfl
  rw [TokenPrefix.ofSettled_target] at hwalk
  refine ⟨u, hu.trans hposX, ?_⟩
  have hsize := (ParseInput.ofHeader (X ++ Z) path).size_eq_lastIndex_succ
  -- more rounds change nothing, so the whole walk is the one that went through the first header
  have hmore := declarations_rounds (ParseInput.ofHeader_endsWithEof (X ++ Z) path)
    ((ParseInput.ofHeader (X ++ Z) path).tokens.size + 1)
    ((ParseInput.ofHeader (X ++ Z) path).tokens.size + 1 + r) ⟨path, [], []⟩
    ⟨0, ⟨#[], (tokenize (X ++ Z)).issues.map (Warning.ofIssue path)⟩⟩ (Nat.zero_le _)
    (by dsimp only; omega) (by dsimp only; omega)
  rw [← hwalk, ← hmore, hrunZ]

/-! ## Text inserted after a settled header -/

section Insertion

variable {X U : String}

/-- The tokens of `X ++ (U ++ Y)`: those of `X` less its end of input, those of `U` less its end of
input, and those of `Y` scanned from where `U` ends. -/
theorem ofHeader_insert_tokens (hX : Settled X.toList) (hU : Settled U.toList) (Y path : String) :
    (ParseInput.ofHeader (X ++ (U ++ Y)) path).tokens =
      (ParseInput.ofHeader X path).tokens.pop ++
        ((scanFrom U.toList (Position.start.after X.toList) ⟨#[], #[]⟩).tokens.pop ++
          (scanFrom Y.toList ((Position.start.after X.toList).after U.toList) ⟨#[], #[]⟩).tokens) := by
  rw [ParseInput.ofHeader_append_tokens hX, String.toList_append, tokens_scanFrom_append hU]

/-- Scanned after `U`, the tokens of `Y` are those scanned without it, moved on by the bytes and
line feeds of `U`. -/
theorem scan_moved_past (U Y : String) (p : Position) :
    List.Forall₂ (Token.Moved ⟨U.utf8ByteSize, U.toList.count '\n'⟩)
      (scanFrom Y.toList p ⟨#[], #[]⟩).tokens.toList
      (scanFrom Y.toList (p.after U.toList) ⟨#[], #[]⟩).tokens.toList :=
  scanFrom_moved (by rw [offset_after, String.ofList_toList]) (line_after p U.toList) .nil Y.toList

/-- The header `X ++ Y` and the same header with `U` inserted after `X`: the tokens of `Y` stand as
many places further on as `U` has tokens, moved on by the bytes and line feeds of `U`. -/
def insertion (hX : Settled X.toList) (hU : Settled U.toList) (Y path : String) : Relocation where
  source := ParseInput.ofHeader (X ++ Y) path
  target := ParseInput.ofHeader (X ++ (U ++ Y)) path
  offset := (scanFrom U.toList (Position.start.after X.toList) ⟨#[], #[]⟩).tokens.pop.size
  shift := ⟨U.utf8ByteSize, U.toList.count '\n'⟩
  path := by rw [ParseInput.ofHeader_path, ParseInput.ofHeader_path]
  size := by
    have hlen := (scan_moved_past U Y (Position.start.after X.toList)).length_eq
    rw [ParseInput.ofHeader_append_tokens hX, ofHeader_insert_tokens hX hU Y path]
    simp only [Array.length_toList] at hlen
    simp only [Array.size_append]
    omega
  endsWithEof := ParseInput.ofHeader_endsWithEof _ _

@[simp] theorem insertion_source (hX : Settled X.toList) (hU : Settled U.toList) (Y path : String) :
    (insertion hX hU Y path).source = ParseInput.ofHeader (X ++ Y) path := rfl

@[simp] theorem insertion_target (hX : Settled X.toList) (hU : Settled U.toList) (Y path : String) :
    (insertion hX hU Y path).target = ParseInput.ofHeader (X ++ (U ++ Y)) path := rfl

@[simp] theorem insertion_offset (hX : Settled X.toList) (hU : Settled U.toList) (Y path : String) :
    (insertion hX hU Y path).offset =
      (scanFrom U.toList (Position.start.after X.toList) ⟨#[], #[]⟩).tokens.pop.size := rfl

@[simp] theorem insertion_shift (hX : Settled X.toList) (hU : Settled U.toList) (Y path : String) :
    (insertion hX hU Y path).shift = ⟨U.utf8ByteSize, U.toList.count '\n'⟩ := rfl

/-- The tokens after the end of `X`, read in `X ++ Y` and in `X ++ (U ++ Y)`. -/
theorem insertion_layout (hX : Settled X.toList) (hU : Settled U.toList) (Y path : String) :
    (insertion hX hU Y path).source.tokens =
      (ParseInput.ofHeader X path).tokens.pop ++ (scanFrom Y.toList (Position.start.after X.toList) ⟨#[], #[]⟩).tokens ∧
    (insertion hX hU Y path).target.tokens =
      ((ParseInput.ofHeader X path).tokens.pop ++ (scanFrom U.toList (Position.start.after X.toList) ⟨#[], #[]⟩).tokens.pop) ++
        (scanFrom Y.toList ((Position.start.after X.toList).after U.toList) ⟨#[], #[]⟩).tokens :=
  ⟨ParseInput.ofHeader_append_tokens hX Y path, by
    rw [insertion_target, ofHeader_insert_tokens hX hU Y path, Array.append_assoc]⟩

/-- The inserted text adds its tokens, less its end of input, to the header. -/
theorem insertion_lastIndex (hX : Settled X.toList) (hU : Settled U.toList) (Y path : String) :
    (insertion hX hU Y path).target.lastIndex =
      (insertion hX hU Y path).source.lastIndex + (insertion hX hU Y path).offset := by
  obtain ⟨hS, hT⟩ := insertion_layout hX hU Y path
  have hlen := (scan_moved_past U Y (Position.start.after X.toList)).length_eq
  have hpos := size_scanFrom_pos Y.toList (Position.start.after X.toList) ⟨#[], #[]⟩
  simp only [Array.length_toList] at hlen
  simp only [ParseInput.lastIndex, hS, hT, insertion_offset, Array.size_append]
  omega

/-- The tokens of `Y` stand moved in the target, from the end of `X` to the end of the source. -/
theorem insertion_window (hX : Settled X.toList) (hU : Settled U.toList) (Y path : String)
    {hi : Nat} (h : hi ≤ (insertion hX hU Y path).source.lastIndex) :
    (insertion hX hU Y path).Window (ParseInput.ofHeader X path).lastIndex hi := by
  obtain ⟨hS, hT⟩ := insertion_layout hX hU Y path
  have hmoved := scan_moved_past U Y (Position.start.after X.toList)
  have hlen := hmoved.length_eq
  have hlast := insertion_lastIndex hX hU Y path
  have hsource : (insertion hX hU Y path).source.lastIndex + 1 =
      (ParseInput.ofHeader X path).tokens.pop.size +
        (scanFrom Y.toList (Position.start.after X.toList) ⟨#[], #[]⟩).tokens.size := by
    rw [← ParseInput.size_eq_lastIndex_succ, hS, Array.size_append]
  simp only [Array.length_toList] at hlen
  refine ⟨by omega, .inr hlast, fun i h₁ h₂ => ?_⟩
  rw [ParseInput.lastIndex_eq_size_pop] at h₁
  obtain ⟨j, rfl⟩ := Nat.exists_eq_add_of_le h₁
  have hj : j < (scanFrom Y.toList (Position.start.after X.toList) ⟨#[], #[]⟩).tokens.size := by
    omega
  -- the `j`-th token of `Y` stands at the end of `X` in the source, and past `U` in the target
  rw [ParseInput.tokenAt_append_right hS hj, show (ParseInput.ofHeader X path).tokens.pop.size + j +
      (insertion hX hU Y path).offset = ((ParseInput.ofHeader X path).tokens.pop ++
        (scanFrom U.toList (Position.start.after X.toList) ⟨#[], #[]⟩).tokens.pop).size + j by
      rw [insertion_offset, Array.size_append]
      omega, ParseInput.tokenAt_append_right hT (by omega)]
  have hm := hmoved.get (i := j) (by simpa using hj) (by simpa [← hlen] using hj)
  exact hm

/-- The tokens of the inserted text are no markers and no end of input. -/
theorem insertion_skip (hX : Settled X.toList) (hU : Settled U.toList) (Y path : String)
    (hmarkers : (tokenize U).hasMarkers = false) :
    ∀ i, (ParseInput.ofHeader X path).lastIndex ≤ i →
      i < (ParseInput.ofHeader X path).lastIndex + (insertion hX hU Y path).offset →
      ((insertion hX hU Y path).target.tokenAt i).kind.isMarker = false ∧
        ((insertion hX hU Y path).target.tokenAt i).kind ≠ .eof := by
  intro i h₁ h₂
  rw [ParseInput.lastIndex_eq_size_pop] at h₁ h₂
  rw [insertion_offset] at h₂
  obtain ⟨j, rfl⟩ := Nat.exists_eq_add_of_le h₁
  have hj : j < (scanFrom U.toList (Position.start.after X.toList) ⟨#[], #[]⟩).tokens.pop.size := by
    omega
  rw [insertion_target, ParseInput.tokenAt_append_right (ofHeader_insert_tokens hX hU Y path)
    (by rw [Array.size_append]; omega), Array.getElem_append_left hj]
  have hahead : markerAhead U.toList = false := by
    rw [← hasMarkers_tokenize]
    exact hmarkers
  have hmem : (scanFrom U.toList (Position.start.after X.toList) ⟨#[], #[]⟩).tokens.pop[j] ∈
      (scanFrom U.toList (Position.start.after X.toList) ⟨#[], #[]⟩).tokens := by
    rw [Array.getElem_pop]
    exact Array.getElem_mem _
  exact ⟨not_marker_of_mem hahead hmem, ne_eof_of_mem_pop (Array.getElem_mem hj)⟩

end Insertion

/-- Text with no marker, inserted after a settled header that parses without errors, changes
nothing that is reflected: the header's own declarations stay as they are, and those after the
insertion are read alike, their lines moved on by the line feeds inserted. -/
theorem parseHeader_insert_unreflected (X U Y path : String) (hX : Settled X.toList)
    (hU : Settled U.toList) (hmarkers : (tokenize U).hasMarkers = false)
    (hclean : (parseHeader X path).hasErrors = false) :
    (parseHeader (X ++ U ++ Y) path).decls =
      (parseHeader (X ++ Y) path).decls.moveFrom ⟨U.utf8ByteSize, U.toList.count '\n'⟩
        (parseHeader X path).decls.records.length := by
  rw [String.append_assoc]
  -- both walks read the tokens of `X` as `X` alone does
  obtain ⟨u, hu, hS⟩ := parseHeader_after_settled hX hclean Y
  obtain ⟨v, hv, hT⟩ := parseHeader_after_settled hX hclean (U ++ Y)
  have hlast := insertion_lastIndex hX hU Y path
  have hsize := (insertion hX hU Y path).source.size_eq_lastIndex_succ
  have hu' : u.pos ≤ (insertion hX hU Y path).source.lastIndex := by
    rw [hu]
    exact (TokenPrefix.ofSettled hX Y path).lastIndex_le
  -- then the walk over `X ++ (U ++ Y)` passes over the tokens of `U`
  obtain ⟨v', hv', hskip⟩ := declarations_skip (ParseInput.ofHeader_endsWithEof _ _)
    (parseHeader X path).decls (insertion hX hU Y path).offset v
    (by rw [hv]; exact insertion_skip hX hU Y path hmarkers)
  have hT' : ((declarations ((ParseInput.ofHeader (X ++ Y) path).tokens.size + 1)
      (parseHeader X path).decls).runOn (ParseInput.ofHeader (X ++ (U ++ Y)) path) v').1 =
        .ok (parseHeader (X ++ (U ++ Y)) path).decls := by
    have hsizeT := (ParseInput.ofHeader (X ++ (U ++ Y)) path).size_eq_lastIndex_succ
    rw [insertion_target, insertion_source] at hlast
    rw [insertion_source] at hsize
    rw [← hskip, ← declarations_rounds (ParseInput.ofHeader_endsWithEof _ _)
      ((ParseInput.ofHeader (X ++ (U ++ Y)) path).tokens.size + 1) _ _ _
      (by rw [hv]; exact (TokenPrefix.ofSettled hX (U ++ Y) path).lastIndex_le) (by omega) (by omega)]
    exact hT
  -- and from the end of `U` on, it reads the tokens of `Y` as the walk over `X ++ Y` does
  obtain ⟨⟨-, hle⟩, hrel⟩ := Relocation.declarations_sim (ρ := insertion hX hU Y path)
    (parseHeader X path).decls.records.length ((insertion hX hU Y path).source.tokens.size + 1)
    (Nat.le_refl _) (FileDecls.moveFrom_of_length_le (Nat.le_refl _)).symm u.pos u rfl hu'
  obtain ⟨-, hout⟩ := hrel v' (by rw [hv', hv, hu]) (by
    rw [hu]
    exact insertion_window hX hU Y path hle)
  rw [insertion_source, insertion_target, hS, hT'] at hout
  exact hout

/-- The header before the insertion has to parse without errors: a settled header whose class
marker is not yet followed by the body reports an error on its own, and a declaration inserted
after it comes between the marker and the body, so the class is no longer reflected. -/
example :
    Settled "GCLASS() class Foo ".toList ∧ (parseHeader "GCLASS() class Foo " "test.h").hasErrors ∧
      Settled "int x; ".toList ∧ (tokenize "int x; ").hasMarkers = false ∧
      (parseHeader ("GCLASS() class Foo " ++ "int x; " ++ "\x7b GENERATED_BODY() \x7d;")
        "test.h").decls.records = [] ∧
      (parseHeader ("GCLASS() class Foo " ++ "\x7b GENERATED_BODY() \x7d;")
        "test.h").decls.records.map (·.name) = ["Foo"] := by
  decide +kernel

theorem insert_function_between_declarations :
    Settled "GCLASS() class Shape \x7b GENERATED_BODY() \x7d;\n".toList ∧
      Settled "inline int Twice(int x) \x7b return 2 * x; \x7d\n".toList ∧
      (tokenize "inline int Twice(int x) \x7b return 2 * x; \x7d\n").hasMarkers = false ∧
      (parseHeader "GCLASS() class Shape \x7b GENERATED_BODY() \x7d;\n" "shape.h").hasErrors = false ∧
      (parseHeader ("GCLASS() class Shape \x7b GENERATED_BODY() \x7d;\n" ++
          "inline int Twice(int x) \x7b return 2 * x; \x7d\n" ++
          "GENUM() enum class Color \x7b Red \x7d;\n") "shape.h").decls =
        (parseHeader ("GCLASS() class Shape \x7b GENERATED_BODY() \x7d;\n" ++
          "GENUM() enum class Color \x7b Red \x7d;\n") "shape.h").decls.moveFrom
          ⟨"inline int Twice(int x) \x7b return 2 * x; \x7d\n".utf8ByteSize,
            "inline int Twice(int x) \x7b return 2 * x; \x7d\n".toList.count '\n'⟩
          (parseHeader "GCLASS() class Shape \x7b GENERATED_BODY() \x7d;\n" "shape.h").decls.records.length := by
  have hX : Settled "GCLASS() class Shape \x7b GENERATED_BODY() \x7d;\n".toList := by decide +kernel
  have hU : Settled "inline int Twice(int x) \x7b return 2 * x; \x7d\n".toList := by decide +kernel
  have hm : (tokenize "inline int Twice(int x) \x7b return 2 * x; \x7d\n").hasMarkers = false := by
    decide +kernel
  have hc : (parseHeader "GCLASS() class Shape \x7b GENERATED_BODY() \x7d;\n" "shape.h").hasErrors = false := by
    decide +kernel
  exact ⟨hX, hU, hm, hc, parseHeader_insert_unreflected _ _ _ _ hX hU hm hc⟩

theorem char_literal_quote_hides_record :
    (tokenize "inline bool IsQuote(char c) \x7b return c == \x27\"\x27; \x7d ").hasMarkers = false ∧
      ¬Settled "inline bool IsQuote(char c) \x7b return c == \x27\"\x27; \x7d ".toList ∧
      (parseHeader ("inline bool IsQuote(char c) \x7b return c == \x27\"\x27; \x7d " ++
        "GCLASS() class Foo \x7b GENERATED_BODY() \x7d;") "test.h").decls.records = [] ∧
      ((parseHeader "GCLASS() class Foo \x7b GENERATED_BODY() \x7d;" "test.h").decls.records.map
        (·.name)) = ["Foo"] := by
  decide +kernel

end TypeReflection
