import TypeReflection.Token.Stream

/-!
# What the scanner produces

`tokenize` walks a header one piece at a time, so a fact about every token it produces follows
from the same fact about the piece read by one step (`forall_tokens_scanFrom`). Quoted texts are
the first use: a string token is always spelled with its two quotes around the text between
them (`quoted_of_mem_tokenize`).
-/

set_option autoImplicit false

namespace TypeReflection.Scan

/-- A property of every token a scan produces, from the same property of the end-of-input
token and of every token one step reads. -/
theorem forall_tokens_scanFrom (P : Token → Prop)
    (hend : ∀ span, P (Token.endOfInput span))
    (hstep : ∀ c rest kind more span, step c rest = (.token kind, more) →
      P ⟨kind, String.ofList (c :: rest.take more), span⟩)
    (cs : List Char) (pos : Position) (found : TokenStream) (hfound : ∀ t ∈ found.tokens, P t) :
    ∀ t ∈ (scanFrom cs pos found).tokens, P t := by
  fun_induction scanFrom cs pos found with
  | case1 pos found =>
    intro t ht
    rcases Array.mem_push.1 ht with ht | rfl
    · exact hfound t ht
    · exact hend _
  | case2 pos found c rest piece more hstepEq taken span found' ih =>
    apply ih
    intro t ht
    -- only a token piece adds to what was found
    cases hpiece : piece with
    | token kind =>
      simp only [found', hpiece] at ht
      rcases Array.mem_push.1 ht with ht | rfl
      · exact hfound t ht
      · exact hstep c rest kind more span (by rw [← hpiece]; exact hstepEq)
    | gap | malformedNumber | unterminatedString | stray =>
      simp only [found', hpiece] at ht
      exact hfound t ht

/-! ## Quoted texts -/

/-- The kinds that no word and no punctuation takes: quoted texts, and the end of input. -/
def Unspelled (k : TokenKind) : Prop := k = .string ∨ k = .eof

theorem wordKind_ne {k : TokenKind} (hk : Unspelled k) (word : List Char) : wordKind word ≠ k := by
  unfold wordKind
  rcases hk with rfl | rfl <;> split <;> simp

theorem wordKindBefore_ne {k : TokenKind} (hk : Unspelled k) (word after : List Char) :
    wordKindBefore word after ≠ k := by
  unfold wordKindBefore
  split
  · split
    · rcases hk with rfl | rfl <;> simp
    · exact wordKind_ne hk word
  · exact wordKind_ne hk word

/-- Punctuation reads only the kinds of its table. -/
theorem mem_of_punctuation {cs : List Char} {k : TokenKind} {n : Nat}
    (h : punctuation cs = some (k, n)) : k ∈ punctuators.map Prod.snd := by
  obtain ⟨p, hp, hpk⟩ := Option.map_eq_some_iff.1 h
  exact List.mem_map.2 ⟨p, List.mem_of_find?_eq_some hp, (Prod.mk.inj hpk).1⟩

theorem punctuation_ne {k : TokenKind} (hk : Unspelled k) (cs : List Char) (n : Nat) :
    punctuation cs ≠ some (k, n) := by
  intro h
  have hmem := mem_of_punctuation h
  -- none of the table's kinds is unspelled
  rcases hk with rfl | rfl <;> revert hmem <;> decide

/-- Only an opening quote starts a string token, and the quoted text then ends with its
closing quote. -/
theorem step_eq_string {c : Char} {rest : List Char} {n : Nat}
    (h : step c rest = (.token .string, n)) : c = '"' ∧ quotedLength rest = (n, true) := by
  unfold step at h
  split at h
  · simp at h
  split at h
  · split at h <;> simp at h
  split at h
  · exact absurd (Piece.token.inj (Prod.mk.inj h).1) (wordKindBefore_ne (.inl rfl) _ _)
  split at h
  · dsimp only at h
    split at h <;> simp at h
  split at h
  · next hq =>
    obtain ⟨hpiece, hn⟩ := Prod.mk.inj h
    split at hpiece
    · exact ⟨by simpa using hq, Prod.ext hn (by assumption)⟩
    · simp at hpiece
  · split at h
    · next k m hp =>
      obtain ⟨hk, -⟩ := Prod.mk.inj h
      rw [Piece.token.inj hk] at hp
      exact absurd hp (punctuation_ne (.inl rfl) _ _)
    · simp at h

/-- A closed quoted text ends with its closing quote. -/
theorem take_of_quotedLength {cs : List Char} {n : Nat} (h : quotedLength cs = (n, true)) :
    ∃ body, cs.take n = body ++ ['"'] := by
  fun_induction quotedLength cs generalizing n with
  | case1 => simp at h
  | case2 rest =>
    obtain ⟨rfl, -⟩ := Prod.mk.inj h
    exact ⟨[], rfl⟩
  | case3 c cs hc => simp at h
  | case4 c cs hc m closed hrec ih =>
    obtain ⟨rfl, rfl⟩ := Prod.mk.inj h
    obtain ⟨body, hbody⟩ := ih hrec
    exact ⟨'\\' :: c :: body, by simp [hbody]⟩
  | case5 => simp at h
  | case6 c cs _ _ _ m closed hrec ih =>
    obtain ⟨rfl, rfl⟩ := Prod.mk.inj h
    obtain ⟨body, hbody⟩ := ih hrec
    exact ⟨c :: body, by simp [hbody]⟩

/-- In the last case of the quoted reading the character is no backslash: a backslash is read
together with the character after it, or ends the text. -/
theorem ne_backslash_of_not_escape {c : Char} {cs : List Char}
    (hesc : ∀ d ds, c = '\\' → cs = d :: ds → False) (hlast : c = '\\' → cs = [] → False) :
    c ≠ '\\' := by
  intro hb
  cases cs with
  | nil => exact hlast hb rfl
  | cons d ds => exact hesc d ds hb rfl

/-- A character other than a quote or a backslash is read as it is. -/
theorem quotedLength_cons_plain {c : Char} (hq : c ≠ '"') (hb : c ≠ '\\') (cs : List Char) :
    quotedLength (c :: cs) = ((quotedLength cs).1 + 1, (quotedLength cs).2) := by
  rw [quotedLength.eq_5 _ _ hq (fun _ _ h => absurd h hb) (fun h => absurd h hb)]

/-- A string token is spelled with its quotes around the text between them. -/
theorem quoted_of_mem_tokenize {text : String} {t : Token} (ht : t ∈ (tokenize text).tokens)
    (hs : t.kind = .string) : ∃ body, t.text.toList = '"' :: body ++ ['"'] := by
  revert hs
  refine forall_tokens_scanFrom (fun t => t.kind = .string → ∃ body, t.text.toList = '"' :: body ++ ['"'])
    (fun span h => by simp [Token.endOfInput] at h) ?_ _ _ _ (by simp) t ht
  intro c rest kind more span hstep hkind
  subst hkind
  obtain ⟨rfl, hq⟩ := step_eq_string hstep
  obtain ⟨body, hbody⟩ := take_of_quotedLength hq
  exact ⟨body, by simp [hbody]⟩

/-! ## Names -/

theorem take_countWhile (p : Char → Bool) (cs : List Char) :
    cs.take (countWhile p cs) = cs.takeWhile p := by
  induction cs with
  | nil => rfl
  | cons c cs ih => by_cases h : p c <;> simp [countWhile, h, ih]

/-- Only a character that may start a name starts an identifier, and the identifier goes on
over name characters only. -/
theorem step_eq_identifier {c : Char} {rest : List Char} {n : Nat}
    (h : step c rest = (.token .identifier, n)) : ∀ x ∈ c :: rest.take n, isNameChar x = true := by
  unfold step at h
  split at h
  · simp at h
  split at h
  · split at h <;> simp at h
  split at h
  · next hc =>
    obtain ⟨-, rfl⟩ := Prod.mk.inj h
    intro x hx
    rcases List.mem_cons.1 hx with rfl | hx
    · simp [isNameChar, hc]
    · rw [take_countWhile] at hx
      exact List.all_eq_true.1 List.all_takeWhile x hx
  split at h
  · dsimp only at h
    split at h <;> simp at h
  split at h
  · dsimp only at h
    split at h <;> simp at h
  · split at h
    · next k m hp =>
      obtain ⟨hk, -⟩ := Prod.mk.inj h
      have hmem := mem_of_punctuation hp
      rw [Piece.token.inj hk] at hmem
      exact absurd hmem (by decide)
    · simp at h

/-- Every identifier the scanner finds is spelled with name characters only. -/
theorem isNameChar_of_identifier {text : String} {t : Token} (ht : t ∈ (tokenize text).tokens)
    (hk : t.kind = .identifier) : ∀ x ∈ t.text.toList, isNameChar x = true := by
  revert hk
  refine forall_tokens_scanFrom (fun t => t.kind = .identifier → ∀ x ∈ t.text.toList, isNameChar x = true)
    (fun span h => by simp [Token.endOfInput] at h) ?_ _ _ _ (by simp) t ht
  intro c rest kind more span hstep hkind
  subst hkind
  simpa using step_eq_identifier hstep

/-! ## The end of input -/

/-- No step reads an end-of-input token: that token is only added once the text runs out. -/
theorem step_ne_eof (c : Char) (rest : List Char) (n : Nat) : step c rest ≠ (.token .eof, n) := by
  intro h
  unfold step at h
  split at h
  · simp at h
  split at h
  · split at h <;> simp at h
  split at h
  · exact absurd (Piece.token.inj (Prod.mk.inj h).1) (wordKindBefore_ne (.inr rfl) _ _)
  split at h
  · dsimp only at h
    split at h <;> simp at h
  split at h
  · dsimp only at h
    split at h <;> simp at h
  · split at h
    · next k m hp =>
      obtain ⟨hk, -⟩ := Prod.mk.inj h
      rw [Piece.token.inj hk] at hp
      exact punctuation_ne (.inr rfl) _ _ hp
    · simp at h

/-- A scan adds tokens none of which is the end of input, and then one end-of-input token. -/
theorem scanFrom_tokens (cs : List Char) (pos : Position) (found : TokenStream) :
    ∃ (mid : Array Token) (span : Span),
      (scanFrom cs pos found).tokens = (found.tokens ++ mid).push (Token.endOfInput span) ∧
      ∀ t ∈ mid, t.kind ≠ .eof := by
  fun_induction scanFrom cs pos found with
  | case1 pos found => exact ⟨#[], pos.spanOver [], by simp, by simp⟩
  | case2 pos found c rest piece more hstepEq taken span found' ih =>
    obtain ⟨mid, span', heq, hmid⟩ := ih
    cases hpiece : piece with
    | token kind =>
      -- the token the step read goes in front of what the rest of the scan adds
      have hkind : kind ≠ .eof := by
        rintro rfl
        exact step_ne_eof c rest more (by rw [← hpiece]; exact hstepEq)
      refine ⟨#[⟨kind, String.ofList taken, span⟩] ++ mid, span', ?_, ?_⟩
      · simp only [found', hpiece] at heq ⊢
        rw [heq]
        simp
      · intro t ht
        rcases Array.mem_append.1 ht with ht | ht
        · rw [Array.mem_singleton] at ht
          rw [ht]
          exact hkind
        · exact hmid t ht
    | gap | malformedNumber | unterminatedString | stray =>
      simp only [found', hpiece] at heq ⊢
      exact ⟨mid, span', heq, hmid⟩

end TypeReflection.Scan
