import TypeReflection.Proofs.Parse.Rounds
import TypeReflection.Proofs.Parse.Braces
import TypeReflection.Proofs.Token.Scan

/-!
# A parse stays within its tokens and ends

The parser reads a token stream whose last token, and only that one, is the end of input. Its
loops are given `rounds`, one more than the number of tokens, for their fuel, and each round of
a loop moves the cursor on; so no loop is cut short by its rounds, and the walk over a header
always ends, without failing, on its last token. The cursor never leaves the tokens. The
backward scans of the member reads stay within the tokens they scan, and neither the scan of a
record's body nor the scan to a matching opener counts a brace below zero.

`ParseInput.ParsesSafely` gathers these facts for one input, and `tokenize_parsesSafely`
proves them for the input of every header.
-/

set_option autoImplicit false

namespace TypeReflection

open TypeReflection.Parser TypeReflection.Scan

namespace ParseInput

/-- A loop given `rounds` for its fuel is never cut short by it: from every cursor on a token,
more fuel gives the same run. -/
def RoundsSuffice {α : Type} (input : ParseInput) (loop : Nat → Parser α) : Prop :=
  ∀ s : ParseState, s.pos ≤ input.lastIndex → ∀ k,
    (loop (input.tokens.size + 1 + k)).runOn input s = (loop (input.tokens.size + 1)).runOn input s

/-- Rounds suffice for a loop whose run is the same for every fuel above the distance from the
cursor to the last token. -/
theorem roundsSuffice_of {α : Type} {input : ParseInput} {loop : Nat → Parser α}
    (h : ∀ n m (s : ParseState), s.pos ≤ input.lastIndex → input.lastIndex - s.pos < n →
      input.lastIndex - s.pos < m → (loop n).runOn input s = (loop m).runOn input s) :
    input.RoundsSuffice loop := by
  intro s hs k
  have := input.lastIndex_lt
  exact h _ _ s hs (by omega) (by omega)

end ParseInput

namespace Parser

/-- The scan of a record's body counted from one open brace: `opened` is the number of braces
open beyond the body's own `{`. It is `body` with its count kept one lower, so a `}` closes the
body when no other brace is open and otherwise closes one of them, and nothing is subtracted. -/
def bodyAbove (fuel : Nat) (opened : Nat) (record : RecordDecl) : Parser RecordDecl :=
  match fuel with
  | 0 => fail "'\x7d'"
  | fuel + 1 => do
    let t ← current
    match t.kind with
    | .eof => fail "'\x7d'"
    | .leftBrace =>
      let _ ← advance
      bodyAbove fuel (opened + 1) record
    | .rightBrace =>
      let _ ← advance
      match opened with
      | 0 => return record
      | opened + 1 => bodyAbove fuel opened record
    | .generatedBody =>
      if record.bodyLine.isSome then
        warn s!"'{record.name}' has more than one GENERATED_BODY()" t.span
      let _ ← advance
      bodyAbove fuel opened { record with bodyLine := some t.span.line }
    | .propertyMarker =>
      let _ ← advance
      match ← member property with
      | some (ds, p) =>
        bodyAbove fuel opened
          { record with properties := record.properties ++ [{ p with decorators := ds }] }
      | none => bodyAbove fuel opened record
    | .methodMarker =>
      let _ ← advance
      match ← member method with
      | some (ds, m) =>
        bodyAbove fuel opened
          { record with methods := record.methods ++ [{ m with decorators := ds }] }
      | none => bodyAbove fuel opened record
    | _ =>
      let _ ← advance
      bodyAbove fuel opened record

/-- The body scan at a count of one or more never takes one from a count of zero: it is the scan
that counts the braces open beyond the first. -/
theorem body_succ_eq_bodyAbove (fuel : Nat) :
    ∀ opened record, body fuel (opened + 1) record = bodyAbove fuel opened record := by
  induction fuel with
  | zero => intro _ _; rfl
  | succ fuel ih =>
    intro opened record
    unfold body bodyAbove
    refine congrArg (current >>= ·) (funext fun t => ?_)
    cases t.kind <;> try simp only [ih]
    -- only a `}` reads the count, and it goes on only from a count of two or more
    case rightBrace => cases opened <;> simp [ih]
    -- what may be left are the member reads, matched on alike by each definition's own match
    all_goals rfl

end Parser

namespace ParseInput

/-- What keeps a parse of `input` within its tokens and its loops within their rounds. -/
structure ParsesSafely (input : ParseInput) : Prop where
  /-- The last token is the end of input, -/
  endsWithEof : input.EndsWithEof
  /-- and no token before it is. -/
  eof_only_last : ∀ i < input.lastIndex, (input.tokenAt i).kind ≠ .eof
  /-- The walk, and the record and enum reads it makes, leave the cursor on a token. -/
  walk_in_range : ∀ n decls (s : ParseState), s.pos ≤ input.lastIndex →
    ((declarations n decls).runOn input s).2.pos ≤ input.lastIndex
  record_in_range : ∀ s : ParseState, s.pos ≤ input.lastIndex →
    (record.runOn input s).2.pos ≤ input.lastIndex
  enum_in_range : ∀ s : ParseState, s.pos ≤ input.lastIndex →
    (enumDecl.runOn input s).2.pos ≤ input.lastIndex
  /-- No loop is cut short by its rounds. -/
  walk_rounds : ∀ decls, input.RoundsSuffice (declarations · decls)
  body_rounds : ∀ depth record, input.RoundsSuffice (body · depth record)
  /-- A record's body is scanned from a count of one open brace (`record` starts it at one), and
  at every count of one or more the scan is the one that counts the braces beyond the first, so
  the count never goes below zero. -/
  body_counter : ∀ fuel opened record (s : ParseState),
    (body fuel (opened + 1) record).runOn input s = (bodyAbove fuel opened record).runOn input s
  decorators_rounds : ∀ acc, input.RoundsSuffice (commaItems decorator · acc)
  values_rounds : ∀ acc, input.RoundsSuffice (commaItems decoratorValue · acc)
  names_rounds : ∀ acc, input.RoundsSuffice (qualifiedTail · acc)
  entries_rounds : ∀ next acc, input.RoundsSuffice (enumEntries · next acc)
  /-- The walk from the first token reads up to the last one, and does not fail. -/
  walk_ends : ∀ decls diagnostics, ∃ decls' s,
    (declarations (input.tokens.size + 1) decls).runOn input ⟨0, diagnostics⟩ = (.ok decls', s) ∧
      s.pos = input.lastIndex
  /-- A method's inline body is skipped at brace depth one or more, up to the `}` that closes
  it. -/
  body_braces : ∀ b, b < input.tokens.size → (input.tokenAt b).kind = .leftBrace → ∀ x, b < x →
    x ≤ (scanBraces (input.fromIndex b) b 0).index → 1 ≤ input.braceDepth b x
  /-- A declarator's trailing groups are stripped within its tokens, -/
  groups_in_bounds : ∀ lo hi, (stripGroups (input.tokens.extract lo hi)
    (input.tokens.extract lo hi).size []).1 ≤ (input.tokens.extract lo hi).size
  /-- and the backward scan from a closer among a member's tokens stops, before it, at the
  opener that matches it. -/
  closers_match : ∀ (o c : TokenKind), o ≠ c → ∀ lo hi top j,
    (h : top < (input.tokens.extract lo hi).size) → (input.tokens.extract lo hi)[top].kind = c →
    matchingOpen (input.tokens.extract lo hi) o c top 0 = some j →
    j < top ∧ Token.nestDepth o c ((input.tokens.extract lo hi).extract j (top + 1)).toList = 0 ∧
      ∀ m, j < m → m ≤ top →
        Token.nestDepth o c ((input.tokens.extract lo hi).extract m (top + 1)).toList < 0

/-- The input made of tokens that end with an end-of-input token is those tokens. -/
theorem ofTokens_tokens {tokens : Array Token} (path : String)
    (h : tokens.back?.map (·.kind) = some .eof) : (ofTokens tokens path).tokens = tokens := by
  unfold ofTokens
  split
  · next t hback =>
    rw [hback, Option.map_some, Option.some_inj] at h
    simp [h]
  · next hback => simp [hback] at h

/-- In the input made of tokens with one end-of-input token, added last, no token before the
last is the end of input. -/
theorem ofTokens_eof_only_last {mid : Array Token} {span : Span} (path : String)
    (hmid : ∀ t ∈ mid, t.kind ≠ .eof) :
    ∀ i < (ofTokens (mid.push (Token.endOfInput span)) path).lastIndex,
      ((ofTokens (mid.push (Token.endOfInput span)) path).tokenAt i).kind ≠ .eof := by
  have htokens : (ofTokens (mid.push (Token.endOfInput span)) path).tokens =
      mid.push (Token.endOfInput span) := ofTokens_tokens path (by simp [Token.endOfInput])
  intro i hi
  have hsize : i < mid.size := by
    simp only [lastIndex, htokens, Array.size_push] at hi
    omega
  rw [tokenAt_of_lt _ (by rw [htokens]; simp; omega)]
  simp only [htokens, Array.getElem_push_lt hsize]
  exact hmid _ (Array.getElem_mem hsize)

/-- The input a header is parsed from: its tokens, ending with the end of input. -/
def ofHeader (text path : String) : ParseInput := ofTokens (tokenize text).tokens path

theorem ofHeader_endsWithEof (text path : String) : (ofHeader text path).EndsWithEof :=
  Parser.ofTokens_endsWithEof _ path

/-- No token of a header's input before the last is the end of input. -/
theorem ofHeader_eof_only_last (text path : String) :
    ∀ i < (ofHeader text path).lastIndex, ((ofHeader text path).tokenAt i).kind ≠ .eof := by
  obtain ⟨mid, span, htokens, hmid⟩ := scanFrom_tokens text.toList Position.start ⟨#[], #[]⟩
  simp only [Array.empty_append] at htokens
  rw [ofHeader, tokenize, htokens]
  exact ofTokens_eof_only_last path hmid

end ParseInput

/-- Every header is parsed within its tokens: the walk and the reads it makes keep the cursor on
a token, no loop is cut short by its rounds, the walk ends on the last token without failing,
and the member reads' scans stay within their tokens and count no bracket below zero. -/
theorem tokenize_parsesSafely (text path : String) : (ParseInput.ofHeader text path).ParsesSafely := by
  have hin := ParseInput.ofHeader_endsWithEof text path
  have heof := ParseInput.ofHeader_eof_only_last text path
  exact {
    endsWithEof := hin
    eof_only_last := heof
    walk_in_range := fun n decls s hs => ((declarations_grows n decls) _ s hs).le_last
    record_in_range := fun s hs => (record_grows _ s hs).le_last
    enum_in_range := fun s hs => (enumDecl_grows _ s hs).le_last
    walk_rounds := fun decls => ParseInput.roundsSuffice_of fun n m s hs hn hm =>
      declarations_rounds hin n m decls s hs hn hm
    body_rounds := fun depth record => ParseInput.roundsSuffice_of fun n m s hs hn hm =>
      body_rounds hin n m depth record s hs hn hm
    decorators_rounds := fun acc => ParseInput.roundsSuffice_of fun n m s hs hn hm =>
      commaItems_rounds hin decorator_grows decorator_progresses n m acc s hs hn hm
    values_rounds := fun acc => ParseInput.roundsSuffice_of fun n m s hs hn hm =>
      commaItems_rounds hin decoratorValue_grows decoratorValue_progresses n m acc s hs hn hm
    names_rounds := fun acc => ParseInput.roundsSuffice_of fun n m s hs hn hm =>
      qualifiedTail_rounds hin n m acc s hs hn hm
    entries_rounds := fun next acc => ParseInput.roundsSuffice_of fun n m s hs hn hm =>
      enumEntries_rounds hin n m next acc s hs hn hm
    walk_ends := by
      intro decls diagnostics
      have hlast := (ParseInput.ofHeader text path).lastIndex_lt
      obtain ⟨decls', s, hrun, hk⟩ := declarations_ends hin
        ((ParseInput.ofHeader text path).tokens.size + 1) decls ⟨0, diagnostics⟩
        (Nat.zero_le _) (by simp only; omega)
      have hle := ((declarations_grows _ decls).advances (Nat.zero_le _) hrun).le_last
      -- the walk stops on an end-of-input token, and only the last one is
      exact ⟨decls', s, hrun, Nat.le_antisymm hle (Nat.not_lt.1 fun hlt => heof s.pos hlt hk)⟩
    body_counter := fun fuel opened record _ => by rw [body_succ_eq_bodyAbove]
    body_braces := fun _ hb hk x h₁ h₂ => ParseInput.scanBraces_opens hb hk x h₁ h₂
    groups_in_bounds := fun lo hi => stripGroups_le _ _ _
    closers_match := fun o c hoc lo hi top j htop hc h => matchingOpen_closer htop hc hoc h }

end TypeReflection
