import TypeReflection.Proofs.Parse.Forward

/-!
# Every loop of the parser finishes within its rounds

The parser's loops (the walk over a header, a record's body, comma-separated items, `::`
parts and enum entries) are given a number of rounds, and stop when it runs out. Each round
that goes on to another moves the cursor past at least one token, so a loop that is given more
rounds than there are tokens after the cursor never runs out: with any more rounds it does
exactly the same. The rounds the parser gives, one more than the number of tokens, are
therefore never what stops a loop.

The progress of a round rests on the last token being the end of input: every other token
stands before it, so moving past it moves the cursor on.
-/

set_option autoImplicit false

namespace TypeReflection.Parser

open Scan

variable {α β : Type} {input : ParseInput}

/-- Two binds with the same first step run alike when their continuations run alike from
wherever that step leaves. -/
theorem runOn_bind_congr {p : Parser α} {f g : α → Parser β} {s : ParseState}
    (h : ∀ a s', p.runOn input s = (.ok a, s') → (f a).runOn input s' = (g a).runOn input s') :
    (p >>= f).runOn input s = (p >>= g).runOn input s := by
  rw [runOn_bind, runOn_bind]
  rcases hp : p.runOn input s with ⟨_ | a, s'⟩
  · rfl
  · exact h a s' hp

/-- Moving past a token other than the end of input goes to the next index. -/
theorem advance_next (hin : input.EndsWithEof) {s s' : ParseState} {t : Token}
    (hne : (input.tokenAt s.pos).kind ≠ .eof) (h : advance.runOn input s = (.ok t, s')) :
    s'.pos = s.pos + 1 := by
  rw [runOn_advance] at h
  simp only [Prod.mk.injEq] at h
  rw [← h.2]
  exact input.next_of_lt (input.lt_lastIndex_of_ne_eof hin hne)

/-- A step that starts by moving past a token other than the end of input ends past it,
whatever it does next. -/
theorem lt_pos_advance_bind (hin : input.EndsWithEof) {s : ParseState}
    (hne : (input.tokenAt s.pos).kind ≠ .eof) {f : Token → Parser β} (hf : ∀ t, Grows (f t)) :
    s.pos < ((advance >>= f).runOn input s).2.pos := by
  have hlt := input.lt_lastIndex_of_ne_eof hin hne
  have h₁ : advance.runOn input s = (.ok (input.tokenAt s.pos), { s with pos := s.pos + 1 }) := by
    rw [runOn_advance, input.next_of_lt hlt]
  rw [runOn_bind_of_ok _ _ h₁]
  have h₂ := hf (input.tokenAt s.pos) input { s with pos := s.pos + 1 } (by simp only; omega)
  exact Nat.lt_of_lt_of_le (Nat.lt_succ_self _) h₂.pos_le

/-- The same, for a given run. -/
theorem lt_pos_of_advance_bind (hin : input.EndsWithEof) {s s' : ParseState} {r : Except ParseError β}
    (hne : (input.tokenAt s.pos).kind ≠ .eof) {f : Token → Parser β}
    (h : (advance >>= f).runOn input s = (r, s')) (hf : ∀ t, Grows (f t)) : s.pos < s'.pos := by
  have := lt_pos_advance_bind hin hne hf
  rwa [h] at this

/-! ### Steps that pass at least one token when they succeed -/

/-- When `p` succeeds on an input that ends with the end of input, it has moved past at least
one token. -/
def Progresses (p : Parser α) : Prop :=
  ∀ (input : ParseInput) (s s' : ParseState) (a : α), input.EndsWithEof →
    p.runOn input s = (.ok a, s') → s.pos < s'.pos

theorem decoratorValue_progresses : Progresses decoratorValue := by
  intro input s s' a hin h
  unfold decoratorValue at h
  rw [runOn_bind_of_ok _ _ (runOn_current _ _)] at h
  -- every way to succeed starts by moving past the current token
  split at h
  · next hk =>
    exact lt_pos_of_advance_bind hin (by rw [hk]; decide) h fun _ => .pure _
  · next hk =>
    exact lt_pos_of_advance_bind hin (by rw [hk]; decide) h fun _ =>
      (skipFloatSuffix_grows _).bind fun _ => .pure _
  · next hk =>
    exact lt_pos_of_advance_bind hin (by rw [hk]; decide) h fun _ =>
      (expect_grows _).bind fun _ => (skipFloatSuffix_grows _).bind fun _ => .pure _
  · split at h
    · next k _ hword =>
      refine lt_pos_of_advance_bind hin ?_ h fun _ =>
        rounds_grows.bind fun _ => qualifiedTail_grows _ _
      intro heof
      simp [heof, TokenKind.isWord, TokenKind.isMarker] at hword
    · simp at h

theorem decorator_progresses : Progresses decorator := by
  intro input s s' a hin h
  unfold decorator at h
  dsimp only at h
  rw [runOn_bind_of_ok _ _ (runOn_check _ _ _)] at h
  split at h
  · rw [runOn_bind_of_error _ _ (runOn_fail _ _ _)] at h
    simp at h
  · next hname =>
    have hne : (input.tokenAt s.pos).kind ≠ .eof := by
      simp only [Bool.not_eq_eq_eq_not, Bool.not_true, beq_eq_false_iff_ne, ne_eq,
        Decidable.not_not] at hname
      rw [hname]
      decide
    exact lt_pos_of_advance_bind hin hne h fun _ => (eat_grows _).bind fun _ =>
      .ite (rounds_grows.bind fun _ => (commaItems_grows decoratorValue_grows _ _).bind fun _ =>
        (expect_grows _).bind fun _ => .pure _) (.pure _)

/-! ### More rounds change nothing -/

/-- The two ways of going on, joined after a branch. -/
theorem ite_bind_eq {c : Prop} [Decidable c] (p q : Parser α) (k : α → Parser β) :
    (if c then p >>= k else q >>= k) = (if c then p else q) >>= k := by
  split <;> rfl

/-- What a list reads after an item's comma, or in place of a missing one, only looks at the
cursor: when the lists go on alike from there, the two tails run alike. -/
theorem separator_congr {close : TokenKind} {msg : String} {k k' : Parser β} {s : ParseState}
    (h : k.runOn input s = k'.runOn input s) (separated : Bool) :
    (do
      if !separated then
        if !(← check close) then fail msg
      k).runOn input s = (do
      if !separated then
        if !(← check close) then fail msg
      k').runOn input s := by
  split
  · refine runOn_bind_congr fun c s₁ h₁ => ?_
    rw [runOn_check] at h₁
    cases h₁
    split
    · exact runOn_bind_congr fun _ s₂ h₂ => by simp at h₂
    · exact h
  · exact h

section Rounds

variable (hin : input.EndsWithEof)
include hin

theorem qualifiedTail_rounds (n m : Nat) (acc : String) (s : ParseState)
    (hs : s.pos ≤ input.lastIndex) (hn : input.lastIndex - s.pos < n)
    (hm : input.lastIndex - s.pos < m) :
    (qualifiedTail n acc).runOn input s = (qualifiedTail m acc).runOn input s := by
  induction n generalizing m acc s with
  | zero => omega
  | succ n ih =>
    obtain ⟨m, rfl⟩ : ∃ k, m = k + 1 := ⟨m - 1, by omega⟩
    unfold qualifiedTail
    refine runOn_bind_congr fun b s₁ h₁ => ?_
    rw [runOn_check] at h₁
    cases h₁
    split
    · next hcc =>
      -- past the `::`, then a name, and the rest is read with one round less
      have hne : (input.tokenAt s.pos).kind ≠ .eof := by
        simp only [beq_iff_eq] at hcc
        rw [hcc]
        decide
      refine runOn_bind_congr fun _ s₂ h₂ => runOn_bind_congr fun _ s₃ h₃ => ?_
      have hlt := input.lt_lastIndex_of_ne_eof hin hne
      have h₂' := advance_next hin hne h₂
      have h₃' := (expect_grows _).advances (by omega) h₃
      have := h₃'.pos_le
      exact ih m _ s₃ h₃'.le_last (by omega) (by omega)
    · rfl

theorem commaItems_rounds {item : Parser α} (hg : Grows item) (hp : Progresses item)
    (n m : Nat) (acc : Array α) (s : ParseState) (hs : s.pos ≤ input.lastIndex)
    (hn : input.lastIndex - s.pos < n) (hm : input.lastIndex - s.pos < m) :
    (commaItems item n acc).runOn input s = (commaItems item m acc).runOn input s := by
  induction n generalizing m acc s with
  | zero => omega
  | succ n ih =>
    obtain ⟨m, rfl⟩ : ∃ k, m = k + 1 := ⟨m - 1, by omega⟩
    unfold commaItems
    refine runOn_bind_congr fun b s₁ h₁ => ?_
    rw [runOn_check] at h₁
    cases h₁
    split
    · rfl
    -- an item passes at least one token, and what follows it only moves forward
    refine runOn_bind_congr fun x s₂ h₂ => runOn_bind_congr fun sep s₃ h₃ => ?_
    have hlt := hp input s s₂ x hin h₂
    have h₂' := hg.advances hs h₂
    have h₃' := (eat_grows _).advances h₂'.le_last h₃
    have := h₃'.pos_le
    have := h₃'.le_last
    exact separator_congr (ih m _ s₃ h₃'.le_last (by omega) (by omega)) sep

theorem enumEntries_rounds (n m : Nat) (next : Int) (acc : Array EnumEntry) (s : ParseState)
    (hs : s.pos ≤ input.lastIndex) (hn : input.lastIndex - s.pos < n)
    (hm : input.lastIndex - s.pos < m) :
    (enumEntries n next acc).runOn input s = (enumEntries m next acc).runOn input s := by
  induction n generalizing m next acc s with
  | zero => omega
  | succ n ih =>
    obtain ⟨m, rfl⟩ : ∃ k, m = k + 1 := ⟨m - 1, by omega⟩
    unfold enumEntries
    dsimp only
    refine runOn_bind_congr fun b s₁ h₁ => ?_
    rw [runOn_check] at h₁
    cases h₁
    split
    · rfl
    refine runOn_bind_congr fun b s₁ h₁ => ?_
    rw [runOn_check] at h₁
    cases h₁
    split
    · exact runOn_bind_congr fun _ s₂ h₂ => by simp at h₂
    next hname =>
    -- the entry's name is passed; its value, if any, and a comma only move forward
    have hne : (input.tokenAt s.pos).kind ≠ .eof := by
      simp only [Bool.not_eq_eq_eq_not, Bool.not_true, beq_eq_false_iff_ne, ne_eq,
        Decidable.not_not] at hname
      rw [hname]
      decide
    have hlt := input.lt_lastIndex_of_ne_eof hin hne
    refine runOn_bind_congr fun entry s₂ h₂ => runOn_bind_congr fun b s₃ h₃ => ?_
    have h₂' := advance_next hin hne h₂
    have h₃' := (eat_grows _).advances (by omega) h₃
    rw [ite_bind_eq, ite_bind_eq]
    refine runOn_bind_congr fun v s₄ h₄ => runOn_bind_congr fun sep s₅ h₅ => ?_
    have h₄' := (Grows.ite enumValue_grows (.pure _)).advances h₃'.le_last h₄
    have h₅' := (eat_grows _).advances h₄'.le_last h₅
    have := h₃'.pos_le
    have := h₄'.pos_le
    have := h₅'.pos_le
    exact separator_congr (ih m _ _ s₅ h₅'.le_last (by omega) (by omega)) sep

theorem body_rounds (n m depth : Nat) (record : RecordDecl) (s : ParseState)
    (hs : s.pos ≤ input.lastIndex) (hn : input.lastIndex - s.pos < n)
    (hm : input.lastIndex - s.pos < m) :
    (body n depth record).runOn input s = (body m depth record).runOn input s := by
  induction n generalizing m depth record s with
  | zero => omega
  | succ n ih =>
    obtain ⟨m, rfl⟩ : ∃ k, m = k + 1 := ⟨m - 1, by omega⟩
    unfold body
    refine runOn_bind_congr fun t s₁ h₁ => ?_
    rw [runOn_current] at h₁
    cases h₁
    -- every round that goes on first passes the current token, which is not the end of input
    have next : ∀ {s' : ParseState}, s.pos < s'.pos → s'.pos ≤ input.lastIndex →
        ∀ d r, (body n d r).runOn input s' = (body m d r).runOn input s' :=
      fun h h' d r => ih m d r _ h' (by omega) (by omega)
    have pass : ∀ {s₀ s' : ParseState} {t : Token}, advance.runOn input s₀ = (.ok t, s') →
        s₀.pos = s.pos → (input.tokenAt s.pos).kind ≠ .eof →
        s.pos < s'.pos ∧ s'.pos ≤ input.lastIndex := by
      intro s₀ s' t h h₀ hne
      rw [← h₀] at hne ⊢
      have := input.lt_lastIndex_of_ne_eof hin hne
      have := advance_next hin hne h
      omega
    split
    · rfl
    · next hk =>
      refine runOn_bind_congr fun _ s₂ h₂ => ?_
      obtain ⟨hlt, hle⟩ := pass h₂ rfl (by rw [hk]; decide)
      exact next hlt hle _ _
    · next hk =>
      refine runOn_bind_congr fun _ s₂ h₂ => ?_
      obtain ⟨hlt, hle⟩ := pass h₂ rfl (by rw [hk]; decide)
      split
      · rfl
      · exact next hlt hle _ _
    · next hk =>
      dsimp only
      split
      · refine runOn_bind_congr fun _ s₂ h₂ => runOn_bind_congr fun _ s₃ h₃ => ?_
        rw [runOn_warn] at h₂
        cases h₂
        obtain ⟨hlt, hle⟩ := pass h₃ rfl (by rw [hk]; decide)
        exact next hlt hle _ _
      · refine runOn_bind_congr fun _ s₂ h₂ => ?_
        obtain ⟨hlt, hle⟩ := pass h₂ rfl (by rw [hk]; decide)
        exact next hlt hle _ _
    · next hk =>
      refine runOn_bind_congr fun _ s₂ h₂ => runOn_bind_congr fun res s₃ h₃ => ?_
      obtain ⟨hlt, hle⟩ := pass h₂ rfl (by rw [hk]; decide)
      have h₃' := (member_grows property_grows).advances hle h₃
      have := h₃'.pos_le
      split
      · exact next (by omega) h₃'.le_last _ _
      · exact next (by omega) h₃'.le_last _ _
    · next hk =>
      refine runOn_bind_congr fun _ s₂ h₂ => runOn_bind_congr fun res s₃ h₃ => ?_
      obtain ⟨hlt, hle⟩ := pass h₂ rfl (by rw [hk]; decide)
      have h₃' := (member_grows method_grows).advances hle h₃
      have := h₃'.pos_le
      split
      · exact next (by omega) h₃'.le_last _ _
      · exact next (by omega) h₃'.le_last _ _
    · next heof _ _ _ _ _ =>
      refine runOn_bind_congr fun _ s₂ h₂ => ?_
      obtain ⟨hlt, hle⟩ := pass h₂ rfl heof
      exact next hlt hle _ _

/-! ### The walk over a header -/

omit hin in
/-- A step that has passed a token still has after any forward continuation. -/
theorem lt_pos_bind {p : Parser α} {f : α → Parser β} {s : ParseState}
    (h : s.pos < (p.runOn input s).2.pos) (hle : (p.runOn input s).2.pos ≤ input.lastIndex)
    (hf : ∀ a, Grows (f a)) : s.pos < ((p >>= f).runOn input s).2.pos := by
  rw [runOn_bind]
  rcases hrun : p.runOn input s with ⟨_ | a, s'⟩
  · rw [hrun] at h
    exact h
  · rw [hrun] at h hle
    exact Nat.lt_of_lt_of_le h (hf a input s' hle).pos_le

theorem record_passes {s : ParseState} (hs : s.pos ≤ input.lastIndex)
    (hne : (input.tokenAt s.pos).kind ≠ .eof) : s.pos < (record.runOn input s).2.pos := by
  obtain ⟨f, hf, hg⟩ := recordHead_after_marker
  have hhead : s.pos < (recordHead.runOn input s).2.pos := by
    rw [hf]
    exact lt_pos_advance_bind hin hne hg
  exact lt_pos_bind hhead (recordHead_grows.advances hs rfl).le_last fun _ =>
    (expect_grows _).bind fun _ => rounds_grows.bind fun _ => (body_grows _ _ _).bind fun _ =>
      (expect_grows _).bind fun _ => .pure _

theorem enumDecl_passes {s : ParseState} (hk : (input.tokenAt s.pos).kind = .enumMarker) :
    s.pos < (enumDecl.runOn input s).2.pos := by
  obtain ⟨f, hf, hg⟩ := enumDecl_after_marker
  have hne : (input.tokenAt s.pos).kind ≠ .eof := by
    rw [hk]
    decide
  have h₁ : (expect .enumMarker).runOn input s = advance.runOn input s := by
    rw [runOn_expect, if_pos hk, runOn_advance]
  rw [hf, runOn_bind, h₁, ← runOn_bind]
  exact lt_pos_advance_bind hin hne hg

omit hin in
/-- A declaration that passes its marker, read with recovery, ends past the marker. -/
theorem lt_pos_recover {p : Parser FileDecls} {s : ParseState} (decls : FileDecls)
    (h : s.pos < (p.runOn input s).2.pos) :
    s.pos < ((tryCatch p (recover s.pos decls)).runOn input s).2.pos := by
  rw [runOn_tryCatch]
  rcases hrun : p.runOn input s with ⟨_ | a, s'⟩
  · rw [hrun] at h
    dsimp only
    -- recovery reports and, the cursor having moved, does not move it again
    unfold recover
    rw [runOn_bind_of_ok _ _ (runOn_report _ _ _), runOn_bind_of_ok _ _ (runOn_position _ _)]
    simp only [beq_iff_eq, Nat.ne_of_gt h, if_false]
    exact h
  · rw [hrun] at h
    exact h

theorem declarations_rounds (n m : Nat) (decls : FileDecls) (s : ParseState)
    (hs : s.pos ≤ input.lastIndex) (hn : input.lastIndex - s.pos < n)
    (hm : input.lastIndex - s.pos < m) :
    (declarations n decls).runOn input s = (declarations m decls).runOn input s := by
  induction n generalizing m decls s with
  | zero => omega
  | succ n ih =>
    obtain ⟨m, rfl⟩ : ∃ k, m = k + 1 := ⟨m - 1, by omega⟩
    unfold declarations
    dsimp only
    refine runOn_bind_congr fun b s₁ h₁ => ?_
    rw [runOn_atEnd] at h₁
    cases h₁
    split
    · rfl
    next hend =>
    have hne : (input.tokenAt s.pos).kind ≠ .eof := by simpa using hend
    refine runOn_bind_congr fun start s₁ h₁ => runOn_bind_congr fun t s₂ h₂ => ?_
    rw [runOn_position] at h₁
    cases h₁
    rw [runOn_current] at h₂
    cases h₂
    -- each declaration, read or recovered, and each other token ends past the cursor
    have next : ∀ {q : Parser FileDecls} {d : FileDecls} {s' : ParseState}, Grows q →
        s.pos < (q.runOn input s).2.pos → q.runOn input s = (.ok d, s') →
        (declarations n d).runOn input s' = (declarations m d).runOn input s' := by
      intro q d s' hg hlt h
      have hlt' : s.pos < s'.pos := by
        rw [h] at hlt
        exact hlt
      have := (hg.advances hs h).le_last
      exact ih m d s' this (by omega) (by omega)
    split
    · refine runOn_bind_congr fun d s₃ h₃ => ?_
      refine next (.tryCatch (record_grows.bind fun _ => .pure _) (recover_grows _ _)) ?_ h₃
      exact lt_pos_recover _ (lt_pos_bind (record_passes hin hs hne)
        (record_grows.advances hs rfl).le_last fun _ => .pure _)
    · split
      · next hk =>
        refine runOn_bind_congr fun d s₃ h₃ => ?_
        refine next (.tryCatch (enumDecl_grows.bind fun _ => .pure _) (recover_grows _ _)) ?_ h₃
        exact lt_pos_recover _ (lt_pos_bind (enumDecl_passes hin (by simpa using hk))
          (enumDecl_grows.advances hs rfl).le_last fun _ => .pure _)
      · refine runOn_bind_congr fun _ s₃ h₃ => runOn_bind_congr fun d s₄ h₄ => ?_
        rw [runOn_pure] at h₄
        cases h₄
        have h₃' := advance_next hin hne h₃
        have hlt := input.lt_lastIndex_of_ne_eof hin hne
        exact ih m _ s₃ (by omega) (by omega) (by omega)

omit hin in
/-- Recovery from a failed declaration always succeeds, with the declarations it was given. -/
theorem recover_ok (input : ParseInput) (start : Nat) (decls : FileDecls) (e : ParseError) (s : ParseState) :
    ∃ s', (recover start decls e).runOn input s = (.ok decls, s') := by
  unfold recover
  dsimp only
  rw [runOn_bind_of_ok _ _ (runOn_report _ _ _), runOn_bind_of_ok _ _ (runOn_position _ _)]
  split
  · exact ⟨_, runOn_bind_of_ok _ _ (runOn_advance _ _)⟩
  · exact ⟨_, rfl⟩

omit hin in
/-- A declaration read with recovery always succeeds. -/
theorem recovered_ok (input : ParseInput) (p : Parser FileDecls) (start : Nat) (decls : FileDecls) (s : ParseState) :
    ∃ d s', (tryCatch p (recover start decls)).runOn input s = (.ok d, s') := by
  rw [runOn_tryCatch]
  rcases p.runOn input s with ⟨_ | d, s'⟩
  · obtain ⟨s'', h⟩ := recover_ok input start decls _ s'
    exact ⟨decls, s'', h⟩
  · exact ⟨d, s', rfl⟩

/-- Given rounds enough, the walk over a header succeeds and stops on an end-of-input token. -/
theorem declarations_ends (n : Nat) (decls : FileDecls) (s : ParseState)
    (hs : s.pos ≤ input.lastIndex) (hn : input.lastIndex - s.pos < n) :
    ∃ decls' s', (declarations n decls).runOn input s = (.ok decls', s') ∧
      (input.tokenAt s'.pos).kind = .eof := by
  induction n generalizing decls s with
  | zero => omega
  | succ n ih =>
    unfold declarations
    dsimp only
    rw [runOn_bind_of_ok _ _ (runOn_atEnd _ _)]
    split
    · next hend => exact ⟨decls, s, rfl, by simpa using hend⟩
    next hend =>
    have hne : (input.tokenAt s.pos).kind ≠ .eof := by simpa using hend
    rw [runOn_bind_of_ok _ _ (runOn_position _ _), runOn_bind_of_ok _ _ (runOn_current _ _)]
    -- each way on ends past the cursor, from where the rest of the walk is given a round less
    have next : ∀ {q : Parser FileDecls} {d : FileDecls} {s' : ParseState}, Grows q →
        s.pos < (q.runOn input s).2.pos → q.runOn input s = (.ok d, s') →
        ∃ decls' s'', (q >>= fun d => declarations n d).runOn input s = (.ok decls', s'') ∧
          (input.tokenAt s''.pos).kind = .eof := by
      intro q d s' hg hlt h
      have hlt' : s.pos < s'.pos := by
        rw [h] at hlt
        exact hlt
      have := (hg.advances hs h).le_last
      rw [runOn_bind_of_ok _ _ h]
      exact ih d s' this (by omega)
    split
    · obtain ⟨d, s', h⟩ := recovered_ok input
        (record >>= fun r => pure { decls with records := decls.records ++ [r] }) s.pos decls s
      exact next (.tryCatch (record_grows.bind fun _ => .pure _) (recover_grows _ _))
        (lt_pos_recover _ (lt_pos_bind (record_passes hin hs hne)
          (record_grows.advances hs rfl).le_last fun _ => .pure _)) h
    · split
      · next hk =>
        obtain ⟨d, s', h⟩ := recovered_ok input
          (enumDecl >>= fun e => pure { decls with enums := decls.enums ++ [e] }) s.pos decls s
        exact next (.tryCatch (enumDecl_grows.bind fun _ => .pure _) (recover_grows _ _))
          (lt_pos_recover _ (lt_pos_bind (enumDecl_passes hin (by simpa using hk))
            (enumDecl_grows.advances hs rfl).le_last fun _ => .pure _)) h
      · have h₁ : advance.runOn input s = (.ok (input.tokenAt s.pos), { s with pos := s.pos + 1 }) := by
          rw [runOn_advance, input.next_of_lt (input.lt_lastIndex_of_ne_eof hin hne)]
        have hlt := input.lt_lastIndex_of_ne_eof hin hne
        rw [runOn_bind_of_ok _ _ h₁, runOn_bind_of_ok _ _ (runOn_pure _ _ _)]
        exact ih decls _ (by simp only; omega) (by simp only; omega)

end Rounds

/-- The parser's input always ends with an end-of-input token, whatever tokens it is made of. -/
theorem ofTokens_endsWithEof (tokens : Array Token) (path : String) :
    (ParseInput.ofTokens tokens path).EndsWithEof := by
  unfold ParseInput.ofTokens ParseInput.EndsWithEof
  split
  · next t hback =>
    split
    · next heof =>
      simp only [ParseInput.tokenAt, ParseInput.lastIndex, Nat.min_self]
      rw [Array.back?_eq_getElem?, Array.getElem?_eq_some_iff] at hback
      obtain ⟨_, ht⟩ := hback
      rw [ht]
      simpa using heof
    · simp [ParseInput.tokenAt, ParseInput.lastIndex, Token.endOfInput]
  · simp [ParseInput.tokenAt, ParseInput.lastIndex, Token.endOfInput]

end TypeReflection.Parser
