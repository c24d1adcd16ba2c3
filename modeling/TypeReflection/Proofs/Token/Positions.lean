import Mathlib.Data.List.Induction
import Mathlib.Data.String.Basic
import TypeReflection.Proofs.Token.Scan

/-!
# Where the scanner puts its tokens

The scanner keeps its place as it goes: a byte offset, a line and a column, moved on by every
character it reads, whether the character belongs to a token, a blank run, a comment, an anomaly
or a stray character. This file reads that running place off the text directly
(`start_after`): after the characters `pre`, the offset is their UTF-8 size, the line is one more
than their line feeds, and the column one more than the characters after the last line feed.

A scan is then followed with the invariant `Found`: every token found so far covers its own text
at the place where that text stands (`Covers`), tokens come in order and end before the point the
scan has reached, and every anomaly covers a nonempty piece of the text. The invariant is kept by
each step (`Found.push_token`, `Found.push_issue`, `Found.skip`) and so by the whole scan
(`scanFrom_found`), which ends by adding the end-of-input token at the end of the text.
-/

set_option autoImplicit false

namespace TypeReflection.Scan

/-! ## The place after some characters -/

/-- The characters after the last line feed, or all of them when there is none. -/
def lastLine (pre : List Char) : List Char := (pre.reverse.takeWhile (· != '\n')).reverse

theorem after_append (p : Position) (a b : List Char) : p.after (a ++ b) = (p.after a).after b :=
  List.foldl_append

/-- Reading characters moves the offset on by their UTF-8 size. -/
theorem offset_after (p : Position) (cs : List Char) :
    (p.after cs).offset = p.offset + (String.ofList cs).utf8ByteSize := by
  induction cs generalizing p with
  | nil => simp [Position.after]
  | cons c cs ih =>
    have hstep : (p.next c).offset = p.offset + c.utf8Size := by
      unfold Position.next
      split <;> rfl
    rw [show p.after (c :: cs) = (p.next c).after cs from rfl, ih, hstep, String.utf8ByteSize_ofList,
      String.utf8ByteSize_ofList, String.utf8Len_cons]
    omega

/-- A text with a character has a positive UTF-8 size. -/
theorem utf8ByteSize_pos {s : String} (h : s.toList ≠ []) : 0 < s.utf8ByteSize := by
  obtain ⟨c, cs, hcs⟩ := List.exists_cons_of_ne_nil h
  rw [← @String.ofList_toList s, hcs, String.utf8ByteSize_ofList, String.utf8Len_cons]
  exact Nat.lt_of_lt_of_le c.utf8Size_pos (Nat.le_add_left _ _)

/-- The place after the characters `pre`: the UTF-8 size of `pre`, the line after its line feeds
and the column after the characters of its last line. -/
theorem start_after (pre : List Char) :
    Position.start.after pre =
      ⟨(String.ofList pre).utf8ByteSize, pre.count '\n' + 1, (lastLine pre).length + 1⟩ := by
  induction pre using List.reverseRecOn with
  | nil => rfl
  | append_singleton pre c ih =>
    rw [after_append, ih]
    -- a line feed starts a new line; any other character moves one column on
    by_cases hc : c = '\n'
    · subst hc
      simp [Position.after, Position.next, lastLine]
      rfl
    · simp [Position.after, Position.next, lastLine, hc]

/-- A span that starts right after the characters `pre` of a text: at their UTF-8 size, on the
line after their line feeds, at the column after the characters of their last line. -/
structure StartsAfter (s : Span) (pre : List Char) : Prop where
  start : s.start = (String.ofList pre).utf8ByteSize
  line : s.line = pre.count '\n' + 1
  column : s.column = (lastLine pre).length + 1

theorem startsAfter_spanOver (pre piece : List Char) :
    StartsAfter ((Position.start.after pre).spanOver piece) pre := by
  simp only [Position.spanOver, start_after]
  exact ⟨rfl, rfl, rfl⟩

/-! ## What a scan has found -/

/-- `span` is where `piece` stands in the text `full`: right after the characters `pre`, with
the rest of the text after it. -/
def Covers (full : List Char) (span : Span) (piece : List Char) : Prop :=
  ∃ pre rest, full = pre ++ piece ++ rest ∧ span = (Position.start.after pre).spanOver piece

/-- The piece a step reads is covered by the span the scan gives it. -/
theorem covers_taken {full consumed : List Char} {c : Char} {rest : List Char}
    (hfull : full = consumed ++ c :: rest) (more : Nat) :
    Covers full ((Position.start.after consumed).spanOver (c :: rest.take more))
      (c :: rest.take more) :=
  ⟨consumed, rest.drop more, by simp [hfull], rfl⟩

/-- A covering span ends where its piece does: its UTF-8 size after its start. -/
theorem Covers.stop_eq {full piece : List Char} {span : Span} (h : Covers full span piece) :
    span.stop = span.start + (String.ofList piece).utf8ByteSize := by
  obtain ⟨pre, -, -, rfl⟩ := h
  exact offset_after _ piece

/-- What a scan of the text `full` has found once it has read the characters `consumed`. -/
structure Found (full consumed : List Char) (found : TokenStream) : Prop where
  /-- Every token covers its own text. -/
  covers : ∀ t ∈ found.tokens, Covers full t.span t.text.toList
  /-- No token is the end of input. -/
  kind : ∀ t ∈ found.tokens, t.kind ≠ .eof
  /-- No token is empty. -/
  nonempty : ∀ t ∈ found.tokens, t.text.toList ≠ []
  /-- Every token ends before the point reached. -/
  before : ∀ t ∈ found.tokens, t.span.stop ≤ (Position.start.after consumed).offset
  /-- Tokens come in the order of the text. -/
  ordered : found.tokens.toList.Pairwise fun a b => a.span.stop ≤ b.span.start
  /-- Every anomaly covers a nonempty piece of the text. -/
  issues : ∀ e ∈ found.issues, ∃ piece, piece ≠ [] ∧ Covers full e.span piece

/-- Reading on never moves the offset back. -/
theorem offset_after_le (consumed taken : List Char) :
    (Position.start.after consumed).offset ≤ (Position.start.after (consumed ++ taken)).offset := by
  simp [start_after]

section Steps

variable {full consumed : List Char} {c : Char} {rest : List Char} {found : TokenStream}

theorem Found.skip (hf : Found full consumed found) (taken : List Char) :
    Found full (consumed ++ taken) found :=
  { hf with before := fun t ht => Nat.le_trans (hf.before t ht) (offset_after_le consumed taken) }

theorem Found.push_issue (hf : Found full consumed found) (hfull : full = consumed ++ c :: rest)
    (more : Nat) {e : LexIssue}
    (he : e.span = (Position.start.after consumed).spanOver (c :: rest.take more)) :
    Found full (consumed ++ c :: rest.take more) { found with issues := found.issues.push e } := by
  refine { hf.skip (c :: rest.take more) with issues := ?_ }
  intro e' he'
  rcases Array.mem_push.1 he' with he' | rfl
  · exact hf.issues e' he'
  · exact ⟨c :: rest.take more, List.cons_ne_nil _ _, he ▸ covers_taken hfull more⟩

/-- A token read at the point reached covers its text there, and comes after every token
before it. -/
theorem Found.push_token (hf : Found full consumed found) (hfull : full = consumed ++ c :: rest)
    (more : Nat) {kind : TokenKind} (hkind : kind ≠ .eof) :
    Found full (consumed ++ c :: rest.take more)
      { found with
        tokens := found.tokens.push ⟨kind, String.ofList (c :: rest.take more),
          (Position.start.after consumed).spanOver (c :: rest.take more)⟩ } := by
  set taken := c :: rest.take more with htaken
  have hstop : ((Position.start.after consumed).spanOver taken).stop =
      (Position.start.after (consumed ++ taken)).offset := by
    simp only [Position.spanOver, after_append]
  refine ⟨?_, ?_, ?_, ?_, ?_, hf.issues⟩
  · intro t ht
    rcases Array.mem_push.1 ht with ht | rfl
    · exact hf.covers t ht
    · rw [String.toList_ofList]
      exact covers_taken hfull more
  · intro t ht
    rcases Array.mem_push.1 ht with ht | rfl
    · exact hf.kind t ht
    · exact hkind
  · intro t ht
    rcases Array.mem_push.1 ht with ht | rfl
    · exact hf.nonempty t ht
    · simp [htaken]
  · intro t ht
    rcases Array.mem_push.1 ht with ht | rfl
    · exact Nat.le_trans (hf.before t ht) (offset_after_le consumed taken)
    · exact Nat.le_of_eq hstop
  · -- the new token starts where the scan stands, after every token found so far
    rw [Array.toList_push, List.pairwise_append]
    refine ⟨hf.ordered, by simp, ?_⟩
    intro a ha b hb
    rw [List.mem_singleton] at hb
    subst hb
    exact hf.before a (Array.mem_toList_iff.1 ha)

end Steps

/-- A scan of the rest `cs` of the text `full`, from the place after what it has read, keeps the
invariant to the end of the text and then adds the end-of-input token there. -/
theorem scanFrom_found {full : List Char} (cs : List Char) (pos : Position) (found : TokenStream)
    (consumed : List Char) (hfull : full = consumed ++ cs) (hpos : pos = Position.start.after consumed)
    (hf : Found full consumed found) :
    ∃ found', Found full full found' ∧ (scanFrom cs pos found).issues = found'.issues ∧
      (scanFrom cs pos found).tokens =
        found'.tokens.push (Token.endOfInput ((Position.start.after full).spanOver [])) := by
  fun_induction scanFrom cs pos found generalizing consumed with
  | case1 pos found =>
    rw [List.append_nil] at hfull
    subst hfull hpos
    exact ⟨found, hf, rfl, rfl⟩
  | case2 pos found c rest piece more hstepEq taken span found' ih =>
    subst hpos
    have hfull' : full = (consumed ++ taken) ++ rest.drop more := by
      simp [hfull, taken]
    apply ih (consumed ++ taken) hfull' (after_append _ _ _).symm
    -- one case per piece: a token is pushed, an anomaly is reported, or nothing is kept
    cases hpiece : piece with
    | token kind =>
      simp only [found', hpiece]
      exact hf.push_token hfull more fun h => step_ne_eof c rest more (h ▸ hpiece ▸ hstepEq)
    | malformedNumber =>
      simp only [found', hpiece]
      exact hf.push_issue hfull more rfl
    | unterminatedString =>
      simp only [found', hpiece]
      exact hf.push_issue hfull more rfl
    | gap | stray =>
      simp only [found', hpiece]
      exact hf.skip taken

/-- The scan of a text gives tokens followed by exactly one end-of-input token, whose span is
empty and stands at the end of the text, after every other. Each other token is nonempty and
stands where its text stands: its span starts at the UTF-8 size of the text before it and ends
after its own, on the line after the line feeds before it, at the column after the characters
since the last of them. The tokens come in order, each ending before the next starts. Every
anomaly reported starts at such a place too. -/
theorem tokenize_positions (text : String) :
    ∃ body : List Token,
      (tokenize text).tokens.toList = body ++ [Token.endOfInput
        ⟨text.utf8ByteSize, text.utf8ByteSize, text.toList.count '\n' + 1,
          (lastLine text.toList).length + 1⟩] ∧
      (∀ t ∈ body, t.kind ≠ .eof ∧ t.span.start < t.span.stop ∧
        ∃ pre rest, text.toList = pre ++ t.text.toList ++ rest ∧ StartsAfter t.span pre ∧
          t.span.stop = t.span.start + t.text.utf8ByteSize) ∧
      (body.Pairwise fun a b => a.span.stop ≤ b.span.start) ∧
      (∀ t ∈ body, t.span.stop ≤ text.utf8ByteSize) ∧
      ∀ e ∈ (tokenize text).issues, ∃ pre, pre <+: text.toList ∧ StartsAfter e.span pre := by
  obtain ⟨found, hf, hissues, htokens⟩ :=
    @scanFrom_found text.toList text.toList Position.start ⟨#[], #[]⟩ [] rfl rfl
      ⟨by simp, by simp, by simp, by simp, by simp, by simp⟩
  have hsize : (Position.start.after text.toList).offset = text.utf8ByteSize := by
    rw [start_after, String.ofList_toList]
  have hend : (Position.start.after text.toList).spanOver [] = ⟨text.utf8ByteSize,
      text.utf8ByteSize, text.toList.count '\n' + 1, (lastLine text.toList).length + 1⟩ := by
    simp only [Position.spanOver, start_after, String.ofList_toList]
    rfl
  refine ⟨found.tokens.toList, ?_, ?_, hf.ordered, ?_, ?_⟩
  · simp only [tokenize, htokens, Array.toList_push, hend]
  · intro t ht
    have ht' := Array.mem_toList_iff.1 ht
    obtain ⟨pre, rest, hsplit, hspan⟩ := hf.covers t ht'
    have hstop := (hf.covers t ht').stop_eq
    rw [String.ofList_toList] at hstop
    have hpos := utf8ByteSize_pos (hf.nonempty t ht')
    refine ⟨hf.kind t ht', by omega, pre, rest, hsplit, hspan ▸ startsAfter_spanOver pre _, hstop⟩
  · intro t ht
    rw [← hsize]
    exact hf.before t (Array.mem_toList_iff.1 ht)
  · intro e he
    rw [tokenize, hissues] at he
    obtain ⟨piece, -, pre, rest, hsplit, hspan⟩ := hf.issues e he
    exact ⟨pre, ⟨piece ++ rest, by simp [hsplit]⟩, hspan ▸ startsAfter_spanOver pre _⟩

end TypeReflection.Scan
