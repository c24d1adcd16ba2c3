import TypeReflection.Proofs.Parse.Braces

/-!
# The tokens a step moves past

A run of a parser *moves past* the tokens from the cursor it starts on up to the one it leaves
the cursor on. `PassesOnly Q p` says that every token a run of `p` moves past satisfies `Q`;
like `Grows`, it is proved once for each primitive and each combinator, and from those for each
parser from its body.

No decorator read moves past a reflection marker, and neither does a property read nor a
method read up to its declarator's end. Only the inline body of a method, skipped whole, may
hold markers, and those lie inside the braces it opens (`member_nests`): a marker that a member
read moves past is never one the record body itself would have met at its own depth.
-/

set_option autoImplicit false

namespace TypeReflection

/-- The token at index `y` is no reflection marker. -/
def ParseInput.Unmarked (input : ParseInput) (y : Nat) : Prop := (input.tokenAt y).NotMarker

/-- Moving on goes at most one token further. -/
theorem ParseInput.next_le_succ (input : ParseInput) (i : Nat) : input.next i ≤ i + 1 := by
  unfold ParseInput.next
  split <;> omega

namespace Parser

open Scan

variable {α β : Type}

/-- Every token a run of `p` from `s` moves past satisfies `Q`. -/
def PassesFrom (Q : ParseInput → Nat → Prop) (p : Parser α) (input : ParseInput) (s : ParseState) :
    Prop :=
  ∀ y, s.pos ≤ y → y < (p.runOn input s).2.pos → Q input y

/-- Every token a run of `p` moves past, from any cursor on a token, satisfies `Q`. -/
def PassesOnly (Q : ParseInput → Nat → Prop) (p : Parser α) : Prop :=
  ∀ (input : ParseInput) (s : ParseState), s.pos ≤ input.lastIndex → PassesFrom Q p input s

variable {Q : ParseInput → Nat → Prop}

namespace PassesFrom

variable {input : ParseInput} {s : ParseState}

/-- A run that leaves the cursor where it was moves past nothing. -/
theorem of_pos {p : Parser α} (h : (p.runOn input s).2.pos ≤ s.pos) : PassesFrom Q p input s :=
  fun _ h₁ h₂ => absurd (Nat.lt_of_lt_of_le h₂ h) (Nat.not_lt.2 h₁)

/-- A run that passes only tokens of one kind passes only tokens of any weaker kind. -/
theorem mono {Q' : ParseInput → Nat → Prop} {p : Parser α} (h : ∀ y, Q input y → Q' input y)
    (hp : PassesFrom Q p input s) : PassesFrom Q' p input s :=
  fun y h₁ h₂ => h y (hp y h₁ h₂)

/-- A run of `p >>= f` moves past what `p` moves past, and then what `f` does from where `p`
left the cursor. -/
theorem bind_of_run {p : Parser α} {f : α → Parser β} (hp : PassesFrom Q p input s)
    (hf : ∀ a s', p.runOn input s = (.ok a, s') → PassesFrom Q (f a) input s') :
    PassesFrom Q (p >>= f) input s := by
  intro y h₁ h₂
  rw [runOn_bind] at h₂
  rcases hrun : p.runOn input s with ⟨_ | a, s'⟩
  · rw [hrun] at h₂
    exact hp y h₁ (by rw [hrun]; exact h₂)
  · rw [hrun] at h₂
    -- the token is passed by `p`, or by what follows from where `p` left the cursor
    rcases Nat.lt_or_ge y s'.pos with hy | hy
    · exact hp y h₁ (by rw [hrun]; exact hy)
    · exact hf a s' hrun y hy h₂

/-- A bind passes what its first step passes and then what the rest passes, from any cursor. -/
theorem bind {p : Parser α} {f : α → Parser β} (hp : PassesFrom Q p input s)
    (hadv : s.Advances input (p.runOn input s).2) (hf : ∀ a, PassesOnly Q (f a)) :
    PassesFrom Q (p >>= f) input s :=
  hp.bind_of_run fun a s' h => hf a input s' (by rw [h] at hadv; exact hadv.le_last)

/-- A `tryCatch` passes what its step passes and then what the handler passes after a failure. -/
theorem tryCatch_of_run {p : Parser α} {h : ParseError → Parser α} (hp : PassesFrom Q p input s)
    (hh : ∀ e s', p.runOn input s = (.error e, s') → PassesFrom Q (h e) input s') :
    PassesFrom Q (tryCatch p h) input s := by
  intro y h₁ h₂
  rw [runOn_tryCatch] at h₂
  rcases hrun : p.runOn input s with ⟨e | _, s'⟩
  · rw [hrun] at h₂
    rcases Nat.lt_or_ge y s'.pos with hy | hy
    · exact hp y h₁ (by rw [hrun]; exact hy)
    · exact hh e s' hrun y hy h₂
  · rw [hrun] at h₂
    exact hp y h₁ (by rw [hrun]; exact h₂)

/-- Reading the current token passes nothing before what follows. -/
theorem current_bind {f : Token → Parser α} (h : PassesFrom Q (f (input.tokenAt s.pos)) input s) :
    PassesFrom Q (current >>= f) input s := by
  unfold PassesFrom
  rw [runOn_bind_of_ok _ _ (runOn_current _ _)]
  exact h

/-- Checking the current token's kind passes nothing before what follows. -/
theorem check_bind {k : TokenKind} {f : Bool → Parser α}
    (h : PassesFrom Q (f ((input.tokenAt s.pos).kind == k)) input s) :
    PassesFrom Q (check k >>= f) input s := by
  unfold PassesFrom
  rw [runOn_bind_of_ok _ _ (runOn_check _ _ _)]
  exact h

/-- Reading the cursor passes nothing before what follows. -/
theorem position_bind {f : Nat → Parser α} (h : PassesFrom Q (f s.pos) input s) :
    PassesFrom Q (position >>= f) input s := by
  unfold PassesFrom
  rw [runOn_bind_of_ok _ _ (runOn_position _ _)]
  exact h

/-- Reading the input passes nothing before what follows. -/
theorem read_bind {f : ParseInput → Parser α} (h : PassesFrom Q (f input) input s) :
    PassesFrom Q ((read : Parser ParseInput) >>= f) input s := by
  unfold PassesFrom
  rw [runOn_bind_of_ok _ _ (runOn_read _ _)]
  exact h

/-- Moving past one token that satisfies `Q`. -/
theorem advance (h : Q input s.pos) : PassesFrom Q advance input s := by
  intro y h₁ h₂
  simp only [runOn_advance] at h₂
  have := input.next_le_succ s.pos
  rwa [show y = s.pos by omega]

/-- Moving the cursor over tokens that satisfy `Q`; it never moves past the last token. -/
theorem seek {i : Nat} (h : ∀ y, s.pos ≤ y → y < i → y < input.lastIndex → Q input y) :
    PassesFrom Q (seek i) input s := by
  intro y h₁ h₂
  simp only [runOn_seek] at h₂
  exact h y h₁ (by omega) (by omega)

end PassesFrom

namespace PassesOnly

/-- A step that leaves the cursor where it was passes nothing. -/
theorem of_pos {p : Parser α} (h : ∀ input s, (p.runOn input s).2.pos = s.pos) : PassesOnly Q p :=
  fun input s _ => .of_pos (Nat.le_of_eq (h input s))

/-- A `pure` step passes nothing. -/
theorem pure (a : α) : PassesOnly Q (Pure.pure a : Parser α) := .of_pos fun _ _ => rfl

/-- A `throw` step passes nothing. -/
theorem throw (e : ParseError) : PassesOnly Q (MonadExcept.throw e : Parser α) :=
  .of_pos fun _ _ => rfl

/-- A bind of steps that pass only such tokens, the first moving forward, passes only them. -/
theorem bind {p : Parser α} {f : α → Parser β} (hp : PassesOnly Q p) (hg : Grows p)
    (hf : ∀ a, PassesOnly Q (f a)) : PassesOnly Q (p >>= f) :=
  fun input s hs => (hp input s hs).bind (hg input s hs) hf

/-- A `tryCatch` of steps that pass only such tokens, the step moving forward, passes only them. -/
theorem tryCatch {p : Parser α} {h : ParseError → Parser α} (hp : PassesOnly Q p) (hg : Grows p)
    (hh : ∀ e, PassesOnly Q (h e)) : PassesOnly Q (tryCatch p h) :=
  fun input s hs => (hp input s hs).tryCatch_of_run fun e s' h =>
    hh e input s' (hg.advances hs h).le_last

/-- A choice between steps that pass only such tokens passes only them. -/
theorem ite {c : Prop} {_ : Decidable c} {p q : Parser α} (hp : PassesOnly Q p)
    (hq : PassesOnly Q q) : PassesOnly Q (if c then p else q) := by
  split
  · exact hp
  · exact hq

/-- A step that passes only tokens of one kind passes only tokens of any weaker kind. -/
theorem mono {Q' : ParseInput → Nat → Prop} {p : Parser α} (h : ∀ input y, Q input y → Q' input y)
    (hp : PassesOnly Q p) : PassesOnly Q' p :=
  fun input s hs => (hp input s hs).mono (h input)

/-- A step that first reads the current token passes what the rest passes from there. -/
theorem current_bind {f : Token → Parser α}
    (hf : ∀ input s, s.pos ≤ input.lastIndex → PassesFrom Q (f (input.tokenAt s.pos)) input s) :
    PassesOnly Q (current >>= f) :=
  fun input s hs => (hf input s hs).current_bind

/-- Checking a kind passes nothing before what follows, from every cursor. -/
theorem check_bind {k : TokenKind} {f : Bool → Parser α}
    (hf : ∀ input s, s.pos ≤ input.lastIndex →
      PassesFrom Q (f ((input.tokenAt s.pos).kind == k)) input s) :
    PassesOnly Q (check k >>= f) :=
  fun input s hs => (hf input s hs).check_bind

/-- Reading the input passes nothing. -/
theorem read : PassesOnly Q (read : Parser ParseInput) := .of_pos fun _ _ => rfl

/-- `check` passes nothing. -/
theorem check (k : TokenKind) : PassesOnly Q (check k) := .of_pos fun _ _ => rfl

/-- `rounds` passes nothing. -/
theorem rounds : PassesOnly Q rounds := .of_pos fun _ _ => rfl

/-- `fail` passes nothing. -/
theorem fail (expected : String) : PassesOnly Q (fail expected : Parser α) :=
  .of_pos fun _ _ => rfl

/-- `warn` passes nothing. -/
theorem warn (message : String) (span : Span) : PassesOnly Q (warn message span) :=
  .of_pos fun _ _ => rfl

/-- `report` passes nothing. -/
theorem report (e : ParseError) : PassesOnly Q (report e) := .of_pos fun _ _ => rfl

/-- Taking a token of kind `k`, where every such token satisfies `Q`. -/
theorem eat {k : TokenKind} (hk : ∀ input y, (input.tokenAt y).kind = k → Q input y) :
    PassesOnly Q (eat k) := by
  intro input s _ y h₁ h₂
  rw [runOn_eat] at h₂
  split at h₂
  · next h =>
    have := input.next_le_succ s.pos
    rw [show y = s.pos by simp only at h₂; omega]
    exact hk input s.pos h
  · simp only at h₂
    omega

/-- Expecting a token of kind `k` passes only such a token. -/
theorem expect {k : TokenKind} (hk : ∀ input y, (input.tokenAt y).kind = k → Q input y) :
    PassesOnly Q (expect k) := by
  intro input s _ y h₁ h₂
  rw [runOn_expect] at h₂
  split at h₂
  · next h =>
    have := input.next_le_succ s.pos
    rw [show y = s.pos by simp only at h₂; omega]
    exact hk input s.pos h
  · simp only at h₂
    omega

end PassesOnly

/-! ## Decorators move past no marker -/

/-- A token of a kind that is no marker is no marker. -/
theorem unmarked_of_kind {k : TokenKind} (hk : k.isMarker = false) (input : ParseInput) (y : Nat)
    (h : (input.tokenAt y).kind = k) : input.Unmarked y := by
  rw [ParseInput.Unmarked, Token.NotMarker, h, hk]

/-- Skipping a float suffix passes no marker. -/
theorem skipFloatSuffix_unmarked (numberEnd : Nat) :
    PassesOnly ParseInput.Unmarked (skipFloatSuffix numberEnd) := by
  unfold skipFloatSuffix
  refine .current_bind fun input s hs => ?_
  split
  · next h =>
    -- the suffix is a plain name
    have hname : (input.tokenAt s.pos).kind = .identifier := by
      simp only [Bool.and_eq_true, beq_iff_eq, Bool.or_eq_true, Token.isName] at h
      rcases h.2 with h | h <;> exact h.1
    exact (PassesFrom.advance (unmarked_of_kind rfl input s.pos hname)).bind
      (advance_grows input s hs) fun _ => .pure _
  · exact .of_pos (Nat.le_refl _)

/-- Reading the `::name` parts of a value passes no marker. -/
theorem qualifiedTail_unmarked (fuel : Nat) (acc : String) :
    PassesOnly ParseInput.Unmarked (qualifiedTail fuel acc) := by
  induction fuel generalizing acc with
  | zero => exact .pure _
  | succ fuel ih =>
    unfold qualifiedTail
    refine .check_bind fun input s hs => ?_
    split
    · next h =>
      refine (PassesFrom.advance (unmarked_of_kind rfl input s.pos (by simpa using h))).bind
        (advance_grows input s hs) fun _ => ?_
      exact (PassesOnly.expect (unmarked_of_kind rfl)).bind (expect_grows _) fun _ => ih _
    · exact .of_pos (Nat.le_refl _)

/-- Reading a decorator value passes no marker. -/
theorem decoratorValue_unmarked : PassesOnly ParseInput.Unmarked decoratorValue := by
  unfold decoratorValue
  refine .current_bind fun input s hs => ?_
  -- every value starts by moving past the current token, which is checked to be no marker
  split
  · next hk =>
    exact (PassesFrom.advance (unmarked_of_kind rfl input s.pos hk)).bind
      (advance_grows input s hs) fun _ => .pure _
  · next hk =>
    exact (PassesFrom.advance (unmarked_of_kind rfl input s.pos hk)).bind
      (advance_grows input s hs) fun _ =>
        (skipFloatSuffix_unmarked _).bind (skipFloatSuffix_grows _) fun _ => .pure _
  · next hk =>
    exact (PassesFrom.advance (unmarked_of_kind rfl input s.pos hk)).bind
      (advance_grows input s hs) fun _ =>
        (PassesOnly.expect (unmarked_of_kind rfl)).bind (expect_grows _) fun _ =>
          (skipFloatSuffix_unmarked _).bind (skipFloatSuffix_grows _) fun _ => .pure _
  · split
    · next k _ hword =>
      have hm : input.Unmarked s.pos := by
        simp only [Bool.and_eq_true, Bool.not_eq_eq_eq_not, Bool.not_true] at hword
        exact hword.2
      exact (PassesFrom.advance hm).bind (advance_grows input s hs) fun _ =>
        PassesOnly.rounds.bind rounds_grows fun _ => qualifiedTail_unmarked _ _
    · exact .of_pos (Nat.le_refl _)

/-- Reading comma-separated items passes no marker, when each item passes none and moves forward. -/
theorem commaItems_unmarked {item : Parser α} (hp : PassesOnly ParseInput.Unmarked item)
    (hg : Grows item) (fuel : Nat) (acc : Array α) :
    PassesOnly ParseInput.Unmarked (commaItems item fuel acc) := by
  induction fuel generalizing acc with
  | zero => exact .pure _
  | succ fuel ih =>
    unfold commaItems
    refine (PassesOnly.check _).bind (check_grows _) fun _ => .ite (.pure _)
      (hp.bind hg fun _ => (PassesOnly.eat (unmarked_of_kind rfl)).bind (eat_grows _) fun _ => ?_)
    exact .ite ((PassesOnly.check _).bind (check_grows _) fun _ =>
      .ite ((PassesOnly.fail _).bind (fail_grows _) fun _ => ih _) (ih _)) (ih _)

/-- Reading a decorator passes no marker. -/
theorem decorator_unmarked : PassesOnly ParseInput.Unmarked decorator := by
  unfold decorator
  refine .check_bind fun input s hs => ?_
  split
  · -- no name: the read fails where it stands
    refine .of_pos (Nat.le_of_eq ?_)
    rw [runOn_bind_of_error _ _ (runOn_fail _ _ _)]
  · next hname =>
    have hk : (input.tokenAt s.pos).kind = .identifier := by simpa using hname
    exact (PassesFrom.advance (unmarked_of_kind rfl input s.pos hk)).bind
      (advance_grows input s hs) fun _ => (PassesOnly.eat (unmarked_of_kind rfl)).bind
        (eat_grows _) fun _ => .ite (PassesOnly.rounds.bind rounds_grows fun _ =>
          (commaItems_unmarked decoratorValue_unmarked decoratorValue_grows _ _).bind
            (commaItems_grows decoratorValue_grows _ _) fun _ =>
              (PassesOnly.expect (unmarked_of_kind rfl)).bind (expect_grows _) fun _ => .pure _)
          (.pure _)

/-- Reading a decorator list passes no marker. -/
theorem decoratorList_unmarked : PassesOnly ParseInput.Unmarked decoratorList := by
  unfold decoratorList
  exact (PassesOnly.expect (unmarked_of_kind rfl)).bind (expect_grows _) fun _ =>
    PassesOnly.rounds.bind rounds_grows fun _ =>
      (commaItems_unmarked decorator_unmarked decorator_grows _ _).bind
        (commaItems_grows decorator_grows _ _) fun _ =>
          (PassesOnly.expect (unmarked_of_kind rfl)).bind (expect_grows _) fun _ => .pure _

/-- Reading a member's decorators passes no marker. -/
theorem memberDecorators_unmarked : PassesOnly ParseInput.Unmarked memberDecorators :=
  decoratorList_unmarked.bind decoratorList_grows fun _ =>
    (PassesOnly.eat (unmarked_of_kind rfl)).bind (eat_grows _) fun _ => .pure _

/-! ## Member reads -/

/-- Reading a property passes no marker. -/
theorem property_unmarked : PassesOnly ParseInput.Unmarked property := by
  unfold property
  intro input s hs
  refine PassesFrom.position_bind (PassesFrom.read_bind ?_)
  have hpass := scanProperty_passes (input.fromIndex s.pos) s.pos 0 none
  have hle := le_index_scanProperty (input.fromIndex s.pos) s.pos 0 none
  have hlast := input.lastIndex_lt
  -- the property moves past the tokens its scan read, and the rest of the read stays put
  split
  · next i _ heq =>
    rw [heq] at hpass hle
    refine (PassesFrom.seek fun y h₁ h₂ h₃ => ?_).bind (seek_advances hs hle) fun _ => .fail _
    exact input.forall_tokenAt_of_take hpass h₁ (by simpa [Stop.after] using h₂) (by omega)
  · next stop boundary heq =>
    rw [heq] at hpass hle
    simp only [Stop.index_found] at hle
    refine (PassesFrom.seek fun y h₁ h₂ h₃ => ?_).bind (seek_advances hs (by omega)) fun _ => ?_
    · exact input.forall_tokenAt_of_take hpass h₁ (by simpa [Stop.after] using h₂) (by omega)
    dsimp only
    split
    · exact .throw _
    · exact .ite ((PassesOnly.warn _ _).bind (warn_grows _ _) fun _ => .pure _) (.pure _)

end Parser

/-- The token at `y` is no marker, or lies inside a brace opened at `b` or after. -/
def ParseInput.NestedAfter (b : Nat) (input : ParseInput) (y : Nat) : Prop :=
  input.Unmarked y ∨ b ≤ y ∧ 1 ≤ input.braceDepth b y

namespace Parser

open Scan

variable {α : Type}

/-- A token that is no marker is nested after any brace. -/
theorem nestedAfter_of_unmarked {b : Nat} (input : ParseInput) (y : Nat) (h : input.Unmarked y) :
    input.NestedAfter b y :=
  .inl h

/-- What follows a method's declarator moves past no marker, except inside the inline body it
skips, where every token lies inside the body's brace. -/
theorem skipMethodTail_nests (input : ParseInput) (s : ParseState) (hs : s.pos ≤ input.lastIndex) :
    PassesFrom (ParseInput.NestedAfter s.pos) skipMethodTail input s := by
  unfold skipMethodTail
  refine PassesFrom.current_bind (PassesFrom.position_bind (PassesFrom.read_bind ?_))
  have hlast := input.lastIndex_lt
  split
  · next hk =>
    -- an inline body: every token up to the closing brace lies inside the opening one
    have hle := le_index_scanBraces (input.fromIndex s.pos) s.pos 0
    have hbr : ∀ y, s.pos ≤ y → y ≤ (scanBraces (input.fromIndex s.pos) s.pos 0).index →
        input.NestedAfter s.pos y := by
      intro y h₁ h₂
      rcases Nat.lt_or_eq_of_le h₁ with h | rfl
      · exact .inr ⟨h₁, input.scanBraces_opens (by omega) hk y h h₂⟩
      · exact .inl (unmarked_of_kind rfl input _ hk)
    split
    · next i heq =>
      rw [heq] at hbr hle
      simp only [Stop.index_found] at hbr hle
      refine (PassesFrom.seek fun y h₁ h₂ _ => hbr y h₁ (by omega)).bind_of_run fun _ s' h => ?_
      simp only [runOn_seek, Prod.mk.injEq] at h
      obtain ⟨-, rfl⟩ := h
      refine (PassesFrom.advance (hbr _ (by simp only; omega) (by simp only; omega))).bind
        (advance_grows input _ (by simp only; omega)) fun _ => ?_
      exact ((PassesOnly.eat (unmarked_of_kind rfl)).mono fun _ _ h => .inl h).bind
        (eat_grows _) fun _ => .pure _
    · next i heq =>
      rw [heq] at hbr hle
      simp only [Stop.index_cut] at hbr hle
      exact (PassesFrom.seek fun y h₁ h₂ _ => hbr y h₁ (by omega)).bind (seek_advances hs hle)
        fun _ => .fail _
  · next hk =>
    -- an `= ...;` tail: the scan stops at markers, so it moves past none
    have hpass := scanTo_passes .semicolon (fun k => k == .eof || k.isMarker)
      (input.fromIndex s.pos) s.pos
    have hle := le_index_scanTo .semicolon (fun k => k == .eof || k.isMarker)
      (input.fromIndex s.pos) s.pos
    have hun : ∀ y, s.pos ≤ y →
        y < (scanTo .semicolon (fun k => k == .eof || k.isMarker) (input.fromIndex s.pos) s.pos).after →
        y < input.tokens.size → input.NestedAfter s.pos y := by
      intro y h₁ h₂ h₃
      refine .inl ?_
      rcases input.forall_tokenAt_of_take hpass h₁ h₂ h₃ with h | h
      · exact unmarked_of_kind rfl input y h
      · simp only [Bool.or_eq_false_iff] at h
        exact h.2
    split
    · next i heq =>
      rw [heq] at hun hle
      simp only [Stop.index_found, Stop.after] at hun hle
      refine (PassesFrom.seek fun y h₁ h₂ _ => hun y h₁ (by omega) (by omega)).bind_of_run
        fun _ s' h => ?_
      simp only [runOn_seek, Prod.mk.injEq] at h
      obtain ⟨-, rfl⟩ := h
      exact (PassesFrom.advance (hun _ (by simp only; omega) (by simp only; omega)
        (by simp only; omega))).bind (advance_grows input _ (by simp only; omega)) fun _ => .pure _
    · next i heq =>
      rw [heq] at hun hle
      simp only [Stop.index_cut, Stop.after] at hun hle
      exact (PassesFrom.seek fun y h₁ h₂ _ => hun y h₁ h₂ (by omega)).bind (seek_advances hs hle)
        fun _ => .fail _
  · exact ((PassesOnly.expect (unmarked_of_kind rfl)).mono fun _ _ h => .inl h).bind
      (expect_grows _) (fun _ => .pure _) input s hs

/-- A method read moves past no marker up to its declarator's end `b`, and from there only
past tokens inside the inline body it skips. -/
theorem method_nests (input : ParseInput) (s : ParseState) (hs : s.pos ≤ input.lastIndex) :
    ∃ b, s.pos ≤ b ∧ PassesFrom (ParseInput.NestedAfter b) method input s := by
  have hpass := scanMethod_passes (input.fromIndex s.pos) s.pos 0
  have hle := le_index_scanMethod (input.fromIndex s.pos) s.pos 0
  have hlast := input.lastIndex_lt
  have hun : ∀ b y, s.pos ≤ y → y < (scanMethod (input.fromIndex s.pos) s.pos 0).index →
      y < input.lastIndex → input.NestedAfter b y :=
    fun _ y h₁ h₂ h₃ => .inl (input.forall_tokenAt_of_take hpass h₁ h₂ (by omega))
  unfold method
  rcases hscan : scanMethod (input.fromIndex s.pos) s.pos 0 with boundary | i
  · rw [hscan] at hun hle
    simp only [Stop.index_found] at hun hle
    refine ⟨min boundary input.lastIndex, by omega,
      PassesFrom.position_bind (PassesFrom.read_bind ?_)⟩
    simp only [hscan]
    refine (PassesFrom.seek fun y h₁ h₂ h₃ => hun _ y h₁ h₂ h₃).bind_of_run fun _ s' h => ?_
    simp only [runOn_seek, Prod.mk.injEq] at h
    obtain ⟨-, rfl⟩ := h
    -- from the declarator's end the tail is skipped, and the rest of the read stays put
    refine (skipMethodTail_nests input _ (by simp only; omega)).bind
      (skipMethodTail_grows input _ (by simp only; omega)) fun _ => ?_
    dsimp only
    split
    · refine .ite ((PassesOnly.throw _).bind (.throw _) fun _ => ?_) ?_ <;>
      · split
        · exact .throw _
        · split
          · exact .throw _
          · exact .pure _
    · exact .throw _
  · rw [hscan] at hun hle
    simp only [Stop.index_cut] at hun hle
    refine ⟨s.pos, Nat.le_refl _, PassesFrom.position_bind (PassesFrom.read_bind ?_)⟩
    simp only [hscan]
    exact (PassesFrom.seek fun y h₁ h₂ h₃ => hun _ y h₁ h₂ h₃).bind (seek_advances hs hle)
      fun _ => .fail _

/-- A member read moves past its decorators, which hold no marker, and then past what its reader
moves past: no marker, except inside braces opened at or after some point `b` of the read. -/
theorem member_nests {read : Parser α} (hg : Grows read)
    (hread : ∀ input s, s.pos ≤ input.lastIndex →
      ∃ b, s.pos ≤ b ∧ PassesFrom (ParseInput.NestedAfter b) read input s)
    (input : ParseInput) (s : ParseState) (hs : s.pos ≤ input.lastIndex) :
    ∃ b, s.pos ≤ b ∧ PassesFrom (ParseInput.NestedAfter b) (member read) input s := by
  unfold member
  have hinner : Grows (memberDecorators >>= fun ds => read >>= fun m => pure (some (ds, m))) :=
    memberDecorators_grows.bind fun _ => hg.bind fun _ => .pure _
  -- a failed read is reported where it stopped, which moves past nothing more
  have hreport : ∀ {b : Nat} (e : ParseError) (s' : ParseState),
      (memberDecorators >>= fun ds => read >>= fun m => pure (some (ds, m))).runOn input s =
        (.error e, s') →
      PassesFrom (ParseInput.NestedAfter b)
        ((report e >>= fun _ => pure none) : Parser (Option (DecoratorList × α))) input s' :=
    fun e s' h => (PassesOnly.report e).bind (report_grows e) (fun _ => .pure _) input s'
      (hinner.advances hs h).le_last
  have hdec := memberDecorators_grows input s hs
  have hun : ∀ b, PassesFrom (ParseInput.NestedAfter b) memberDecorators input s :=
    fun _ => (memberDecorators_unmarked input s hs).mono fun y h => nestedAfter_of_unmarked input y h
  rcases hrun : memberDecorators.runOn input s with ⟨e | ds, s₁⟩
  · refine ⟨s.pos, Nat.le_refl _, ((hun _).bind_of_run fun a s' h => ?_).tryCatch_of_run hreport⟩
    rw [hrun] at h
    cases (Prod.mk.inj h).1
  · rw [hrun] at hdec
    obtain ⟨b, hb, hpass⟩ := hread input s₁ hdec.le_last
    refine ⟨b, Nat.le_trans hdec.pos_le hb,
      ((hun _).bind_of_run fun a s' h => ?_).tryCatch_of_run hreport⟩
    rw [hrun] at h
    obtain ⟨h₁, rfl⟩ := Prod.mk.inj h
    cases h₁
    exact hpass.bind (hg input s₁ hdec.le_last) fun _ => .pure _

/-- A property read passes no marker, so every token it passes is nested after its start. -/
theorem property_nests (input : ParseInput) (s : ParseState) (hs : s.pos ≤ input.lastIndex) :
    ∃ b, s.pos ≤ b ∧ PassesFrom (ParseInput.NestedAfter b) property input s :=
  ⟨s.pos, Nat.le_refl _,
    (property_unmarked input s hs).mono fun y h => nestedAfter_of_unmarked input y h⟩

end Parser

end TypeReflection
