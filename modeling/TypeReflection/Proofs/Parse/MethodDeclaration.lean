import TypeReflection.Proofs.Parse.Declarator

/-!
# Reading a member function

A member function `R N ( P ) Q T` is read in two passes, like a data member. The forward scan goes
to the first `;`, `{` or `=` outside parentheses, where the tail `T` starts, and the tail is
skipped: a `;`, an inline body in braces with an optional `;`, or `= E ;`. The backward scan then
drops the trailing qualifiers `Q`, expects the `)` that closes the parameters, walks back to the
`(` that matches it, and takes the name before that `(` and the return type before the name.

Main statement (`method_reads_declaration`): when the return type `R` holds no `;`, `{`, `=`,
parenthesis, end of input or marker, `N` is a plain name, the parameters `P` pair their
parentheses and hold no end of input or marker, and `Q` is made of the one-word qualifiers
`const`, `noexcept`, `override` and `final`, the read gives `N` on its line with the return type
spelled from `R`, reports nothing, and stops just past `T`.

Qualifiers are dropped one token at a time, so a qualifier with parentheses of its own is not one:
in `void f() noexcept(true);` the backward scan stops at the `)` of `noexcept(true)`, and the
method is read as `noexcept` returning `void f()` (`method_takes_noexcept_for_name`).
-/

set_option autoImplicit false

namespace TypeReflection

namespace Token

/-- A token that cuts no scan short: no end of input and no marker. -/
def Uncut (t : Token) : Prop := t.kind ≠ .eof ∧ t.kind.isMarker = false

instance (t : Token) : Decidable t.Uncut := inferInstanceAs (Decidable (_ ∧ _))

/-- A token that may stand in a return type: inside a declaration, and no `{`, `=` or
parenthesis, so the method scan passes it at depth zero. -/
def InReturnType (t : Token) : Prop :=
  t.Inside ∧ t.kind ≠ .leftBrace ∧ t.kind ≠ .equal ∧ t.kind ≠ .leftParen ∧ t.kind ≠ .rightParen

instance (t : Token) : Decidable t.InReturnType := inferInstanceAs (Decidable (_ ∧ _ ∧ _ ∧ _ ∧ _))

/-- A qualifier is a keyword or a plain name, which the method scan passes like a return type. -/
theorem inReturnType_of_qualifier {t : Token} (h : Parser.isMethodQualifier t = true) :
    t.InReturnType := by
  have hk : t.kind = .kwConst ∨ t.kind = .identifier := by
    by_cases hc : t.kind = .kwConst
    · exact .inl hc
    simp only [Parser.isMethodQualifier, isName, hc, Bool.or_eq_true, beq_iff_eq,
      Bool.and_eq_true, false_or] at h
    rcases h with (⟨h, -⟩ | ⟨h, -⟩) | ⟨h, -⟩ <;> exact .inr h
  rcases hk with hk | hk <;> simp [InReturnType, Inside, hk, TokenKind.isMarker]

end Token

namespace ParseInput

variable {input : ParseInput}

/-- The tokens from `i + k` on are those from `i` on without the first `k`. -/
theorem fromIndex_add (i k : Nat) : input.fromIndex (i + k) = (input.fromIndex i).drop k := by
  simp [fromIndex, List.drop_drop]

theorem fromIndex_append {i : Nat} {xs ys : List Token} (h : input.fromIndex i = xs ++ ys) :
    input.fromIndex (i + xs.length) = ys := by
  rw [fromIndex_add, h, List.drop_left]

/-- The token at an index where the tokens from there on start with `t`. -/
theorem tokenAt_of_fromIndex {i : Nat} {t : Token} {ts : List Token}
    (h : input.fromIndex i = t :: ts) : input.tokenAt i = t := by
  have hlen := input.length_fromIndex i
  rw [h, List.length_cons] at hlen
  have hcons := input.fromIndex_eq_cons (i := i) (by omega)
  rw [h, List.cons.injEq] at hcons
  exact hcons.1.symm

/-- An index followed by tokens that do not run to the end stands before the last token. -/
theorem lt_lastIndex_of_fromIndex {i : Nat} {xs ys : List Token} (h : input.fromIndex i = xs ++ ys)
    (hys : ys ≠ []) : i + xs.length ≤ input.lastIndex := by
  have hlen := input.length_fromIndex i
  rw [h, List.length_append] at hlen
  have := List.length_pos_iff.2 hys
  unfold lastIndex
  omega

end ParseInput

namespace Scan

open Token

/-! ## The forward scan of a member function -/

/-- At depth zero, a token of a return type is passed. -/
theorem scanMethod_cons_flat {t : Token} (ht : t.InReturnType) (ts : List Token) (i : Nat) :
    scanMethod (t :: ts) i 0 = scanMethod ts (i + 1) 0 := by
  obtain ⟨⟨hsemi, heof, hmark⟩, hbrace, heq, hl, hr⟩ := ht
  rw [scanMethod]
  split
  · next hk => exact absurd hk hsemi
  · next hk => exact absurd hk hbrace
  · next hk => exact absurd hk heq
  · next hk => exact absurd hk heof
  · next hk => exact absurd hk hl
  · next hk => exact absurd hk hr
  · simp [hmark]

/-- At depth zero, a run of return-type tokens is passed whole. -/
theorem scanMethod_append_flat {xs : List Token} (hxs : ∀ t ∈ xs, t.InReturnType)
    (ys : List Token) (i : Nat) : scanMethod (xs ++ ys) i 0 = scanMethod ys (i + xs.length) 0 := by
  induction xs generalizing i with
  | nil => simp
  | cons t xs ih =>
    rw [List.cons_append, scanMethod_cons_flat (hxs t List.mem_cons_self),
      ih (fun u hu => hxs u (List.mem_cons_of_mem t hu))]
    simp [Nat.add_assoc, Nat.add_comm 1]

/-- Inside parentheses every token that does not cut the scan is passed, and parentheses move
the depth. -/
theorem scanMethod_cons_open {t : Token} (ht : t.Uncut) (ts : List Token) (i d : Nat) (hd : 1 ≤ d) :
    scanMethod (t :: ts) i d =
      scanMethod ts (i + 1) ((d : Int) + t.nestStep .leftParen .rightParen).toNat := by
  obtain ⟨heof, hmark⟩ := ht
  by_cases hl : t.kind = .leftParen
  · have hdepth : ((d : Int) + t.nestStep .leftParen .rightParen).toNat = d + 1 := by
      simp [nestStep, hl]
    rw [hdepth, scanMethod]
    simp only [hl]
  by_cases hr : t.kind = .rightParen
  · have hdepth : ((d : Int) + t.nestStep .leftParen .rightParen).toNat = d - 1 := by
      simp [nestStep, hr]
      omega
    rw [hdepth, scanMethod]
    simp only [hr]
  -- every other token leaves the depth as it is, and the scan stops only at depth zero
  have hdepth : ((d : Int) + t.nestStep .leftParen .rightParen).toNat = d := by
    simp [nestStep, hl, hr]
  rw [hdepth, scanMethod]
  split
  iterate 3 rw [if_neg (by simp only [beq_iff_eq]; omega)]
  · next hk => exact absurd hk heof
  · next hk => exact absurd hk hl
  · next hk => exact absurd hk hr
  · simp [hmark]

/-- Inside parentheses, a run that never closes the last one open is passed whole, and the scan
goes on with the depth it leaves. -/
theorem scanMethod_append_open (xs ys : List Token) (i d : Nat) (hxs : ∀ t ∈ xs, t.Uncut)
    (hdepth : ∀ k, 1 ≤ (d : Int) + nestDepth .leftParen .rightParen (xs.take k)) :
    scanMethod (xs ++ ys) i d =
      scanMethod ys (i + xs.length) ((d : Int) + nestDepth .leftParen .rightParen xs).toNat := by
  induction xs generalizing i d with
  | nil => simp
  | cons t xs ih =>
    have hd : 1 ≤ d := by
      have := hdepth 0
      simp only [List.take_zero, nestDepth_nil, Int.add_zero] at this
      omega
    have hstep : 1 ≤ (d : Int) + t.nestStep .leftParen .rightParen := by simpa using hdepth 1
    have hcast : (((d : Int) + t.nestStep .leftParen .rightParen).toNat : Int) =
        d + t.nestStep .leftParen .rightParen := Int.toNat_of_nonneg (by omega)
    rw [List.cons_append, scanMethod_cons_open (hxs t List.mem_cons_self) _ _ _ hd, ih]
    · rw [hcast, nestDepth_cons, List.length_cons, Int.add_assoc, Nat.add_assoc, Nat.add_comm 1]
    · exact fun u hu => hxs u (List.mem_cons_of_mem t hu)
    · intro k
      have := hdepth (k + 1)
      rw [List.take_succ_cons, nestDepth_cons] at this
      omega

/-- A parameter list `( P )` whose parentheses pair up is passed whole from depth zero back to
depth zero, whatever `;`, `{` or `=` it holds. -/
theorem scanMethod_append_parens {g : List Token} (hg : Group .leftParen .rightParen g)
    (hin : ∀ t ∈ g, t.Uncut) (ys : List Token) (i : Nat) :
    scanMethod (g ++ ys) i 0 = scanMethod ys (i + g.length) 0 := by
  obtain ⟨lp, rp, P, rfl, hlp, hrp, hP⟩ := hg
  have hopen : scanMethod (lp :: (P ++ rp :: ys)) i 0 = scanMethod (P ++ rp :: ys) (i + 1) 1 := by
    rw [scanMethod]
    simp only [hlp]
  -- inside the parentheses the depth never falls back to zero
  have hinside : scanMethod (P ++ rp :: ys) (i + 1) 1 = scanMethod (rp :: ys) (i + 1 + P.length) 1 := by
    rw [scanMethod_append_open P (rp :: ys) (i + 1) 1 (fun t ht => hin t (by simp [ht]))
      (fun k => by have := hP.take_nonneg k; omega), hP.2]
    rfl
  have hclose : scanMethod (rp :: ys) (i + 1 + P.length) 1 =
      scanMethod ys (i + 1 + P.length + 1) 0 := by
    rw [scanMethod]
    simp only [hrp]
  rw [show (lp :: P ++ [rp]) ++ ys = lp :: (P ++ rp :: ys) by simp, hopen, hinside, hclose]
  simp only [List.length_cons, List.length_append, List.length_nil]
  congr 1
  omega

/-- The scan stops at depth zero on a `;`, `{` or `=`. -/
theorem scanMethod_tail {t : Token}
    (ht : t.kind = .semicolon ∨ t.kind = .leftBrace ∨ t.kind = .equal) (ts : List Token) (i : Nat) :
    scanMethod (t :: ts) i 0 = .found i := by
  rcases ht with ht | ht | ht <;> simp [scanMethod, ht]

/-! ## Skipping the tail -/

/-- From a `{` at depth zero, the brace scan passes an inside that pairs its braces and holds no
end of input, and stops on the `}` after it. -/
theorem scanBraces_group {lb rb : Token} {B : List Token} (hlb : lb.kind = .leftBrace)
    (hrb : rb.kind = .rightBrace) (hB : Nested .leftBrace .rightBrace B)
    (hin : ∀ t ∈ B, t.kind ≠ .eof) (ys : List Token) (i : Nat) :
    scanBraces (lb :: B ++ rb :: ys) i 0 = .found (i + B.length + 1) := by
  -- inside the braces the depth stays one or more, so no `}` before the last closes them
  suffices h : ∀ (xs : List Token) (j d : Nat), (∀ t ∈ xs, t.kind ≠ .eof) →
      (∀ k, 1 ≤ (d : Int) + nestDepth .leftBrace .rightBrace (xs.take k)) →
      (d : Int) + nestDepth .leftBrace .rightBrace xs = 1 →
      scanBraces (xs ++ rb :: ys) j d = .found (j + xs.length) by
    rw [List.cons_append, scanBraces]
    simp only [hlb]
    exact h B (i + 1) 1 hin (fun k => by have := hB.take_nonneg k; omega)
      (by have := hB.2; omega) |>.trans (by rw [Nat.add_right_comm])
  intro xs
  induction xs with
  | nil =>
    intro j d _ _ hd
    simp only [nestDepth_nil] at hd
    simp [scanBraces, hrb, show d = 1 by omega]
  | cons t xs ih =>
    intro j d hxs hdepth hd
    have hd1 : 1 ≤ d := by
      have := hdepth 0
      simp only [List.take_zero, nestDepth_nil, Int.add_zero] at this
      omega
    have hnext : 1 ≤ (d : Int) + t.nestStep .leftBrace .rightBrace := by simpa using hdepth 1
    obtain ⟨d', hd', hs, heq⟩ : ∃ d' : Nat, 1 ≤ d' ∧ (d' : Int) = d + t.braceStep ∧
        scanBraces (t :: (xs ++ rb :: ys)) j d = scanBraces (xs ++ rb :: ys) (j + 1) d' := by
      rcases scanBraces_cons t (xs ++ rb :: ys) j d hd1 with hstop | h
      · -- stopping on `t` needs it to close the braces, or to be the end of input
        exfalso
        rw [scanBraces] at hstop
        split at hstop
        · have := le_index_scanBraces (xs ++ rb :: ys) (j + 1) (d + 1)
          omega
        · next hk =>
          split at hstop
          · next hz =>
            simp only [beq_iff_eq] at hz
            have : t.nestStep .leftBrace .rightBrace = -1 := by simp [nestStep, hk]
            omega
          · have := le_index_scanBraces (xs ++ rb :: ys) (j + 1) (d - 1)
            omega
        · next hk => exact hxs t List.mem_cons_self hk
        · have := le_index_scanBraces (xs ++ rb :: ys) (j + 1) d
          omega
      · exact h
    simp only [braceStep] at hs
    have hrest : ∀ k, 1 ≤ (d' : Int) + nestDepth .leftBrace .rightBrace (xs.take k) := by
      intro k
      have := hdepth (k + 1)
      rw [List.take_succ_cons, nestDepth_cons] at this
      omega
    have hsum : (d' : Int) + nestDepth .leftBrace .rightBrace xs = 1 := by
      rw [nestDepth_cons] at hd
      omega
    rw [List.cons_append, heq, ih (j + 1) d' (fun u hu => hxs u (List.mem_cons_of_mem t hu)) hrest
      hsum]
    simp [Nat.add_assoc, Nat.add_comm 1]

/-- From the `=` of a tail `= E ;`, the scan for the `;` passes the expression. -/
theorem scanTo_assign {eq semi : Token} {expr : List Token} (heq : eq.kind = .equal)
    (hexpr : ∀ t ∈ expr, t.Inside) (hsemi : semi.kind = .semicolon) (ys : List Token) (i : Nat) :
    scanTo .semicolon (fun k => k == .eof || k.isMarker) (eq :: expr ++ semi :: ys) i =
      .found (i + expr.length + 1) := by
  rw [List.cons_append, scanTo, if_neg (by simp [heq]), if_neg (by simp [heq, TokenKind.isMarker])]
  induction expr generalizing i with
  | nil => simp [scanTo, hsemi]
  | cons t xs ih =>
    obtain ⟨hs, he, hm⟩ := hexpr t List.mem_cons_self
    rw [List.cons_append, scanTo, if_neg (by simpa using hs), if_neg (by simp [he, hm]),
      ih (fun u hu => hexpr u (List.mem_cons_of_mem t hu)) (i + 1)]
    simp [Nat.add_assoc, Nat.add_comm 1]

end Scan

namespace Parser

open Token Scan

/-- What may follow a member function's qualifiers, and the tokens after it. -/
inductive MethodTail : List Token → List Token → Prop
  /-- A `;`. -/
  | semicolon (semi : Token) (rest : List Token) (hsemi : semi.kind = .semicolon) :
      MethodTail [semi] rest
  /-- An inline body whose braces pair up, with no end of input in it, and no `;` after it. -/
  | body (g rest : List Token) (hg : Group .leftBrace .rightBrace g) (hin : ∀ t ∈ g, t.kind ≠ .eof)
      (hnext : ∀ t ∈ rest.head?, t.kind ≠ .semicolon) : MethodTail g rest
  /-- An inline body and a `;`. -/
  | bodySemicolon (g : List Token) (semi : Token) (rest : List Token)
      (hg : Group .leftBrace .rightBrace g) (hin : ∀ t ∈ g, t.kind ≠ .eof)
      (hsemi : semi.kind = .semicolon) : MethodTail (g ++ [semi]) rest
  /-- `= E ;`, where `E` holds no `;`, end of input or marker, as in `= 0;` or `= default;`. -/
  | assign (eq : Token) (expr : List Token) (semi : Token) (rest : List Token)
      (heq : eq.kind = .equal) (hexpr : ∀ t ∈ expr, t.Inside) (hsemi : semi.kind = .semicolon) :
      MethodTail (eq :: expr ++ [semi]) rest

theorem MethodTail.starts {T rest : List Token} (h : MethodTail T rest) :
    ∃ t ts, T = t :: ts ∧ (t.kind = .semicolon ∨ t.kind = .leftBrace ∨ t.kind = .equal) := by
  cases h with
  | semicolon semi _ hsemi => exact ⟨semi, [], rfl, .inl hsemi⟩
  | body g _ hg =>
    obtain ⟨lb, rb, B, rfl, hlb, -⟩ := hg
    exact ⟨lb, _, rfl, .inr (.inl hlb)⟩
  | bodySemicolon g semi _ hg =>
    obtain ⟨lb, rb, B, rfl, hlb, -⟩ := hg
    exact ⟨lb, _, rfl, .inr (.inl hlb)⟩
  | assign eq expr semi _ heq => exact ⟨eq, _, rfl, .inr (.inr heq)⟩

section Tail

variable {input : ParseInput} {s : ParseState}

/-- Skipping an inline body moves the cursor past its `}` and then takes a `;` if one follows. -/
theorem skipMethodTail_body {lb rb : Token} {B rest : List Token}
    (hinput : input.fromIndex s.pos = lb :: B ++ rb :: rest) (hlb : lb.kind = .leftBrace)
    (hrb : rb.kind = .rightBrace) (hB : Nested .leftBrace .rightBrace B)
    (hin : ∀ t ∈ B, t.kind ≠ .eof) (hrest : rest ≠ []) :
    skipMethodTail.runOn input s =
      (((eat .semicolon).runOn input { s with pos := s.pos + B.length + 2 }).1.map fun _ => (),
        ((eat .semicolon).runOn input { s with pos := s.pos + B.length + 2 }).2) := by
  have hlast := input.lt_lastIndex_of_fromIndex (show input.fromIndex s.pos =
    (lb :: B ++ [rb]) ++ rest by simpa using hinput) hrest
  simp only [List.length_append, List.length_cons, List.length_nil] at hlast
  have ht : input.tokenAt s.pos = lb := input.tokenAt_of_fromIndex (by simpa using hinput)
  have hscan : scanBraces (input.fromIndex s.pos) s.pos 0 = .found (s.pos + B.length + 1) := by
    rw [hinput]
    exact scanBraces_group hlb hrb hB hin rest s.pos
  -- the cursor moves onto the closing brace and then past it
  have hpos : input.next (min (s.pos + B.length + 1) input.lastIndex) = s.pos + B.length + 2 := by
    rw [Nat.min_eq_left (by omega), input.next_of_lt (by omega)]
  unfold skipMethodTail
  rw [runOn_bind_of_ok _ _ (runOn_current _ _), runOn_bind_of_ok _ _ (runOn_position _ _),
    runOn_bind_of_ok _ _ (runOn_read _ _)]
  simp only [ht, hlb, hscan]
  rw [runOn_bind_of_ok _ _ (runOn_seek _ _ _), runOn_bind_of_ok _ _ (runOn_advance _ _)]
  simp only [hpos]
  rw [runOn_bind]
  rcases (eat .semicolon).runOn input { s with pos := s.pos + B.length + 2 } with ⟨_ | b, s'⟩ <;> rfl

/-- Skipping a tail that stands at the cursor, with tokens after it, leaves the cursor just past
it and reports nothing. -/
theorem skipMethodTail_runOn {T rest : List Token}
    (hinput : input.fromIndex s.pos = T ++ rest) (hT : MethodTail T rest) (hrest : rest ≠ []) :
    skipMethodTail.runOn input s = (.ok (), { s with pos := s.pos + T.length }) := by
  have hlast := input.lt_lastIndex_of_fromIndex hinput hrest
  cases hT with
  | semicolon semi _ hsemi =>
    have ht : input.tokenAt s.pos = semi := input.tokenAt_of_fromIndex hinput
    unfold skipMethodTail
    rw [runOn_bind_of_ok _ _ (runOn_current _ _), runOn_bind_of_ok _ _ (runOn_position _ _),
      runOn_bind_of_ok _ _ (runOn_read _ _)]
    simp only [ht, hsemi]
    rw [runOn_bind_of_ok _ _ (by rw [runOn_expect, if_pos (by rw [ht, hsemi])])]
    simp only [List.length_singleton] at hlast ⊢
    rw [input.next_of_lt (by omega)]
    rfl
  | body g _ hg hin hnext =>
    obtain ⟨lb, rb, B, rfl, hlb, hrb, hB⟩ := hg
    -- no `;` follows the body, so none is taken
    have hafter : (input.tokenAt (s.pos + B.length + 2)).kind ≠ .semicolon := by
      obtain ⟨r, rs, rfl⟩ := List.exists_cons_of_ne_nil hrest
      rw [show s.pos + B.length + 2 = s.pos + (lb :: B ++ [rb]).length by simp; omega,
        input.tokenAt_of_fromIndex (input.fromIndex_append hinput)]
      exact hnext r rfl
    rw [skipMethodTail_body (by simpa using hinput) hlb hrb hB (fun t ht => hin t (by simp [ht]))
      hrest, runOn_eat, if_neg hafter]
    simp only [List.length_append, List.length_cons, List.length_nil]
    rfl
  | bodySemicolon g semi _ hg hin hsemi =>
    obtain ⟨lb, rb, B, rfl, hlb, hrb, hB⟩ := hg
    have hsemiAt : input.tokenAt (s.pos + B.length + 2) = semi := by
      rw [show s.pos + B.length + 2 = s.pos + (lb :: B ++ [rb]).length by simp; omega]
      exact input.tokenAt_of_fromIndex (input.fromIndex_append (by simpa using hinput))
    simp only [List.length_append, List.length_cons, List.length_nil] at hlast
    rw [skipMethodTail_body (show input.fromIndex s.pos = lb :: B ++ rb :: semi :: rest by
        simpa using hinput) hlb hrb hB
      (fun t ht => hin t (by simp [ht])) (by simp), runOn_eat, if_pos (by rw [hsemiAt, hsemi]),
      input.next_of_lt (by simp only; omega)]
    simp only [List.length_append, List.length_cons, List.length_nil]
    rfl
  | assign eq expr semi _ heq hexpr hsemi =>
    have ht : input.tokenAt s.pos = eq := input.tokenAt_of_fromIndex (by simpa using hinput)
    have hscan : scanTo .semicolon (fun k => k == .eof || k.isMarker) (input.fromIndex s.pos) s.pos =
        .found (s.pos + expr.length + 1) := by
      rw [hinput]
      simpa using scanTo_assign heq hexpr hsemi rest s.pos
    simp only [List.length_append, List.length_cons, List.length_nil] at hlast
    unfold skipMethodTail
    rw [runOn_bind_of_ok _ _ (runOn_current _ _), runOn_bind_of_ok _ _ (runOn_position _ _),
      runOn_bind_of_ok _ _ (runOn_read _ _)]
    simp only [ht, heq, hscan]
    have hnext : input.next (s.pos + expr.length + 1) = s.pos + (eq :: expr ++ [semi]).length := by
      rw [input.next_of_lt (by omega)]
      simp only [List.length_append, List.length_cons, List.length_nil]
      omega
    rw [runOn_bind_of_ok _ _ (runOn_seek _ _ _), Nat.min_eq_left (by omega),
      runOn_bind_of_ok _ _ (runOn_advance _ _)]
    simp only [hnext]
    rfl

end Tail

/-! ## Reading a member function -/

/-- A member function `R N ( P ) Q T` is read whole. When the return type `R` holds no `;`,
`{`, `=`, parenthesis, end of input or marker, `N` is a plain name, the parameters `P` pair their
parentheses and hold no end of input or marker, every qualifier of `Q` is `const`, `noexcept`,
`override` or `final`, and `T` is a tail with tokens after it: the read gives the name `N` on its
line and the return type spelled from `R`, reports nothing, and leaves the cursor just past `T`. -/
theorem method_reads_declaration {input : ParseInput} {s : ParseState}
    {R : List Token} {N lp rp : Token} {P Q T rest : List Token}
    (hinput : input.fromIndex s.pos = R ++ N :: lp :: P ++ rp :: Q ++ T ++ rest)
    (hR : ∀ t ∈ R, t.InReturnType) (hN : N.kind = .identifier) (hlp : lp.kind = .leftParen)
    (hrp : rp.kind = .rightParen) (hP : Nested .leftParen .rightParen P) (hPin : ∀ t ∈ P, t.Uncut)
    (hQ : ∀ t ∈ Q, isMethodQualifier t = true) (hT : MethodTail T rest) (hrest : rest ≠ []) :
    method.runOn input s =
      (.ok ⟨spell R, N.text, .empty, N.span.line⟩,
        { s with pos := s.pos + (R ++ N :: lp :: P ++ rp :: Q ++ T).length }) := by
  -- the head of the declaration, up to the tail, in its parts
  have hgroup : Group .leftParen .rightParen (lp :: P ++ [rp]) := ⟨lp, rp, P, rfl, hlp, hrp, hP⟩
  have hgin : ∀ t ∈ lp :: P ++ [rp], t.Uncut := by
    intro t ht
    simp only [List.cons_append, List.mem_cons, List.mem_append, List.not_mem_nil, or_false] at ht
    rcases ht with rfl | ht | rfl
    · simp [Uncut, hlp, TokenKind.isMarker]
    · exact hPin t ht
    · simp [Uncut, hrp, TokenKind.isMarker]
  have hNflat : N.InReturnType := by simp [InReturnType, Inside, hN, TokenKind.isMarker]
  obtain ⟨A, hA⟩ : ∃ A, A = R ++ N :: lp :: P ++ [rp] := ⟨_, rfl⟩
  have hhead : R ++ N :: lp :: P ++ rp :: Q = A ++ Q := by simp [hA]
  obtain ⟨t₀, T', rfl, ht₀⟩ := hT.starts
  -- the forward scan stops at the first token of the tail
  have hscan : scanMethod (input.fromIndex s.pos) s.pos 0 = .found (s.pos + (A ++ Q).length) := by
    have hsplit : input.fromIndex s.pos =
        (R ++ [N]) ++ ((lp :: P ++ [rp]) ++ (Q ++ t₀ :: (T' ++ rest))) := by
      rw [hinput]
      simp
    rw [hsplit, scanMethod_append_flat (by simpa [or_imp, forall_and] using ⟨hR, hNflat⟩),
      scanMethod_append_parens hgroup hgin,
      scanMethod_append_flat (fun t ht => inReturnType_of_qualifier (hQ t ht)), scanMethod_tail ht₀]
    simp [hA]
    omega
  have htokens : (input.tokens.extract s.pos (s.pos + (A ++ Q).length)).toList = A ++ Q :=
    extract_of_fromIndex (show input.fromIndex s.pos = (A ++ Q) ++ (t₀ :: T' ++ rest) by
      rw [hinput, hhead]; simp)
  have hlast := input.lt_lastIndex_of_fromIndex (show input.fromIndex s.pos =
    (A ++ Q) ++ ((t₀ :: T') ++ rest) by rw [hinput, hhead]; simp) (by simp)
  have hskip := @skipMethodTail_runOn input { s with pos := s.pos + (A ++ Q).length } _ _
    (input.fromIndex_append (show input.fromIndex s.pos = (A ++ Q) ++ ((t₀ :: T') ++ rest) by
      rw [hinput, hhead]; simp)) hT hrest
  -- the backward scan drops the qualifiers and stops at the `)` of the parameters
  have hclose : ((A ++ Q).reverse.dropWhile isMethodQualifier).length = A.length := by
    rw [List.reverse_append, List.dropWhile_append_of_pos (fun t ht => hQ t (List.mem_reverse.1 ht))]
    rw [hA, List.reverse_append, List.reverse_singleton, List.singleton_append,
      List.dropWhile_cons_of_neg (by simp [isMethodQualifier, hrp, isName])]
    simp
    omega
  have hAlen : A.length = R.length + P.length + 3 := by simp [hA]; omega
  have hclosing : (input.tokens.extract s.pos (s.pos + (A ++ Q).length))[A.length - 1]? = some rp := by
    rw [← Array.getElem?_toList, htokens, List.getElem?_append_left (by omega), hA]
    simp
  -- the matching `(` is the one after the name
  have hmatch : matchingOpen (input.tokens.extract s.pos (s.pos + (A ++ Q).length)) .leftParen
      .rightParen (A.length - 1) 0 = some (R.length + 1) := by
    have htok : (input.tokens.extract s.pos (s.pos + (A ++ Q).length)).toList =
        (R ++ [N]) ++ (lp :: P ++ [rp]) ++ Q := by rw [htokens, hA]; simp
    have h := matchingOpen_group htok (by decide) hgroup
    rwa [show (R ++ [N]).length + (lp :: P ++ [rp]).length - 1 = A.length - 1 by simp [hAlen]; omega,
      show (R ++ [N]).length = R.length + 1 by simp] at h
  have hname : (input.tokens.extract s.pos (s.pos + (A ++ Q).length))[R.length]? = some N := by
    rw [← Array.getElem?_toList, htokens, hA]
    simp
  have htype : (A ++ Q).take R.length = R := by
    rw [hA]
    simp
  unfold method
  rw [runOn_bind_of_ok _ _ (runOn_position _ _), runOn_bind_of_ok _ _ (runOn_read _ _)]
  simp only [hscan]
  rw [runOn_bind_of_ok _ _ (runOn_seek _ _ _), Nat.min_eq_left hlast, runOn_bind_of_ok _ _ hskip]
  simp only [htokens, hclose, if_pos (show 0 < A.length by omega), hclosing, hrp, hmatch,
    Nat.add_sub_cancel, hname]
  simp [hN, Option.filter, htype, hAlen]
  omega

/-- The tokens of `virtual int Count(const Map<int, int>& m) const noexcept = 0;`. -/
def countInput : ParseInput :=
  ParseInput.ofTokens (tokenize "virtual int Count(const Map<int, int>& m) const noexcept = 0;").tokens
    "t.h"

/-- `virtual int Count(const Map<int, int>& m) const noexcept = 0;` is read as the method `Count`
returning `virtual int`, and the read stops on the end of input, just past the `;`. -/
theorem method_reads_declaration_count :
    (method.runOn countInput ⟨0, .empty⟩).1 = .ok ⟨"virtual int", "Count", .empty, 1⟩ ∧
      (method.runOn countInput ⟨0, .empty⟩).2.pos = 19 := by
  have h := @method_reads_declaration countInput ⟨0, .empty⟩ (countInput.slice 0 2)
    (countInput.tokenAt 2) (countInput.tokenAt 3) (countInput.tokenAt 13) (countInput.slice 4 13)
    (countInput.slice 14 16) (countInput.tokenAt 16 :: countInput.slice 17 18 ++ [countInput.tokenAt 18])
    (countInput.fromIndex 19) (by decide +kernel) (by decide +kernel) (by decide +kernel)
    (by decide +kernel) (by decide +kernel) (by decide +kernel) (by decide +kernel)
    (by decide +kernel)
    (.assign _ _ _ _ (by decide +kernel) (by decide +kernel) (by decide +kernel))
    (by decide +kernel)
  rw [h]
  refine ⟨congrArg Except.ok ?_, ?_⟩ <;> decide +kernel

/-- A qualifier with parentheses is not dropped: in `void f() noexcept(true);` the backward scan
takes the parentheses of `noexcept(true)` for the parameters, so the method is read, without any
report, as `noexcept` returning `void f()`. -/
theorem method_takes_noexcept_for_name :
    ((parseHeader "GCLASS() class A \x7b GMETHOD() void f() noexcept(true); \x7d;" "test.h").decls.records.map
        fun r => r.methods.map fun m => (m.returnType, m.name)) = [[("void f()", "noexcept")]] ∧
      (parseHeader "GCLASS() class A \x7b GMETHOD() void f() noexcept(true); \x7d;"
        "test.h").diagnostics.errors = #[] ∧
      (parseHeader "GCLASS() class A \x7b GMETHOD() void f() noexcept(true); \x7d;"
        "test.h").diagnostics.warnings = #[] := by
  decide +kernel

end Parser

end TypeReflection
