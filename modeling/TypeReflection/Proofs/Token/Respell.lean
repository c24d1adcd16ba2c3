import TypeReflection.Proofs.Token.Reread

/-!
# Spelling is stable under scanning

The text `Token.spell` writes for the tokens of a header, scanned again and spelled again, comes
out unchanged (`spell_tokenize_spell`): the types and base classes kept as spelled text are fixed
points of scanning and spelling, whatever the blanks and comments of the header were.

The proof runs over the lexemes being spelled (`spellChars_lexemes_spellChars`), by induction on
their number, one lemma per kind of lexeme. A word or a number is followed in the spelling by a
blank, a quote, a comma or punctuation, all of which end it (`stopsWord_spellChars_true`); a quoted
text and a comma end by themselves. Punctuators other than the comma are written side by side, so
the scanner may read a run of them as other punctuators (`<` then `=` as `<=`); those spell the
same characters, and whether a blank comes next depends only on the run's last character
(`spellChars_glued`).
-/

set_option autoImplicit false

namespace TypeReflection

open Scan

/-! ## The lexemes a spelling starts with -/

namespace Scan

theorem Lexeme.cons {k : TokenKind} {x : List Char} (hv : Lexeme (k, x)) :
    ∃ c rest, x = c :: rest := by
  cases hv with
  | word => exact ⟨_, _, rfl⟩
  | number hx =>
    obtain ⟨c, rest, rfl, -⟩ := hx.head
    exact ⟨c, rest, rfl⟩
  | string => exact ⟨_, _, rfl⟩
  | punct h =>
    obtain ⟨c, rest, hcs⟩ := List.exists_cons_of_ne_nil (punctuators_nonempty _ h)
    exact ⟨c, rest, hcs⟩
  | slashEqual => exact ⟨_, _, rfl⟩

/-- No lexeme starts with a blank. -/
theorem Lexeme.head_not_blank {k : TokenKind} {x : List Char} (hv : Lexeme (k, x)) :
    ∀ z ∈ x.head?, isBlank z = false := by
  have htable : punctuators.all (fun e => e.1.head?.all (!isBlank ·)) = true := by decide
  cases hv with
  | word _ hc => simpa using isBlank_of_isNameStart hc
  | number hx =>
    obtain ⟨c, rest, rfl, hc⟩ := hx.head
    simpa using isBlank_of_isDigit hc
  | string => simp [isBlank]
  | punct h =>
    intro z hz
    have hhead := List.all_eq_true.1 htable _ h
    rw [Option.mem_def.1 hz] at hhead
    simpa using hhead
  | slashEqual => simp [isBlank]

/-- A lexeme other than a word or a number starts with a character that ends a word. -/
theorem Lexeme.head_endsWord {k : TokenKind} {x : List Char} (hv : Lexeme (k, x))
    (hk : k.isWord = false) : ∀ z ∈ x.head?, endsWord z = true := by
  have htable : punctuators.all (fun e => e.1.head?.all endsWord) = true := by decide
  cases hv with
  | word hk' => simp [hk] at hk'
  | number => simp [TokenKind.isWord] at hk
  | string => simp; decide
  | punct h =>
    intro z hz
    have hhead := List.all_eq_true.1 htable _ h
    rw [Option.mem_def.1 hz] at hhead
    simpa using hhead
  | slashEqual => simp; decide

/-- A lexeme that is no glued punctuator starts with no glue character. -/
theorem Lexeme.head_not_glue {k : TokenKind} {x : List Char} (hv : Lexeme (k, x))
    (hx : x ∉ gluedTexts) : ∀ z ∈ x.head?, isGlueChar z = false := by
  -- a glue character is neither a name character, nor a quote, nor a comma
  have hname : ∀ z, isNameChar z = true → isGlueChar z = false := fun z hz => by
    cases hg : isGlueChar z
    · rfl
    · rw [(isGlueChar_facts hg).2.1] at hz
      cases hz
  intro z hz
  cases hv with
  | word _ hc =>
    simp only [List.head?_cons, Option.mem_def, Option.some.injEq] at hz
    subst hz
    exact hname _ (by simp [isNameChar, hc])
  | number hnum =>
    obtain ⟨c, rest, rfl, hc⟩ := hnum.head
    simp only [List.head?_cons, Option.mem_def, Option.some.injEq] at hz
    subst hz
    exact hname _ (by simp [isNameChar, hc])
  | string =>
    simp only [List.head?_cons, Option.mem_def, Option.some.injEq] at hz
    subst hz
    cases hg : isGlueChar '"'
    · rfl
    · exact absurd rfl (isGlueChar_facts hg).2.2.1
  | punct h =>
    -- the only entry of the table that glues to nothing is the comma
    have hcomma : x = [','] := by
      by_contra hne
      exact hx (mem_gluedTexts h hne)
    subst hcomma
    simp only [List.head?_cons, Option.mem_def, Option.some.injEq] at hz
    subst hz
    cases hg : isGlueChar ','
    · rfl
    · exact absurd rfl (isGlueChar_facts hg).2.2.2.1
  | slashEqual => exact absurd slashEqual_mem_gluedTexts hx

/-- The lexeme spelled `,` is a comma. -/
theorem Lexeme.eq_comma {k : TokenKind} (hv : Lexeme (k, [','])) : k = .comma := by
  have htable : punctuators.all (fun e => e.1 != [','] || e.2 == .comma) = true := by decide
  cases hv with
  | word _ hc => exact absurd hc (by decide)
  | number hx =>
    obtain ⟨c, rest, heq, hc⟩ := hx.head
    obtain ⟨rfl, -⟩ := List.cons.inj heq
    exact absurd hc (by decide)
  | punct h => simpa using List.all_eq_true.1 htable _ h

end Scan

namespace Token

/-- After a word, the spelling of lexemes starts with a blank or a character that ends a word. -/
theorem stopsWord_spellChars_true {V : List (TokenKind × List Char)} (hV : ∀ v ∈ V, Lexeme v) :
    StopsWord (spellChars true V) := by
  match V, hV with
  | [], _ => simp [StopsWord, spellChars]
  | (k, x) :: V', hV =>
    have hv := hV (k, x) List.mem_cons_self
    obtain ⟨c, rest, rfl⟩ := hv.cons
    intro z hz
    cases hk : k.isWord
    · -- no blank is written: the lexeme's first character comes first
      simp only [spellChars, hk, Bool.false_and, Bool.false_eq_true, if_false, List.cons_append,
        List.head?_cons, Option.mem_def, Option.some.injEq] at hz
      subst hz
      exact hv.head_endsWord hk c rfl
    · simp only [spellChars, hk, Bool.and_self, if_true, List.cons_append, List.head?_cons,
        Option.mem_def, Option.some.injEq] at hz
      subst hz
      decide

/-- Where no blank is asked for, the spelling of lexemes starts with no blank. -/
theorem head_spellChars_false {V : List (TokenKind × List Char)} (hV : ∀ v ∈ V, Lexeme v) :
    ∀ z ∈ (spellChars false V).head?, isBlank z = false := by
  match V, hV with
  | [], _ => simp [spellChars]
  | (k, x) :: V', hV =>
    have hv := hV (k, x) List.mem_cons_self
    obtain ⟨c, rest, rfl⟩ := hv.cons
    intro z hz
    simp only [spellChars, Bool.and_false, Bool.false_eq_true, if_false, List.cons_append,
      List.head?_cons, Option.mem_def, Option.some.injEq] at hz
    subst hz
    exact hv.head_not_blank c rfl

/-- Lexemes that do not start with a glued punctuator are spelled starting with no glue
character. -/
theorem head_spellChars_not_glue {V : List (TokenKind × List Char)} (hV : ∀ v ∈ V, Lexeme v)
    (hhead : ∀ v ∈ V.head?, v.2 ∉ gluedTexts) (b : Bool) :
    ∀ z ∈ (spellChars b V).head?, isGlueChar z = false := by
  match V, hV with
  | [], _ => simp [spellChars]
  | (k, x) :: V', hV =>
    have hv := hV (k, x) List.mem_cons_self
    obtain ⟨c, rest, rfl⟩ := hv.cons
    intro z hz
    by_cases hblank : (k.isWord && b) = true
    · simp only [spellChars, hblank, if_true, List.cons_append, List.head?_cons, Option.mem_def,
        Option.some.injEq] at hz
      subst hz
      decide
    · simp only [spellChars, hblank, Bool.false_eq_true, if_false, List.cons_append,
        List.head?_cons, Option.mem_def, Option.some.injEq] at hz
      subst hz
      exact hv.head_not_glue (hhead _ rfl) c rfl

/-! ## Runs of punctuation -/

/-- Whether a text ends with `*` or `&`, after which a word is written apart. -/
def endsStarOrAmp (p : List Char) : Bool := p.getLast? == some '*' || p.getLast? == some '&'

theorem endsStarOrAmp_append {p q : List Char} (hq : q ≠ []) :
    endsStarOrAmp (p ++ q) = endsStarOrAmp q := by
  obtain ⟨x, hx⟩ := List.getLast?_isSome.2 hq |> Option.isSome_iff_exists.1
  simp [endsStarOrAmp, List.getLast?_append, hx]

/-- A glued punctuator is no word and no comma, and asks for a blank before a word exactly when
it ends with `*` or `&`. -/
theorem spacesWord_of_glued {k : TokenKind} {p : List Char} (hv : Lexeme (k, p))
    (hp : p ∈ gluedTexts) :
    k.isWord = false ∧ (k == .comma) = false ∧ spacesWord k = endsStarOrAmp p := by
  have htable : punctuators.all (fun e => e.1 == [','] ||
      (!e.2.isWord && e.2 != .comma && spacesWord e.2 == endsStarOrAmp e.1)) = true := by
    decide
  obtain ⟨c, rest, rfl⟩ := hv.cons
  -- it starts with a glue character, which starts no word, number, quoted text or comma
  have hc := isGlueChar_facts (isGlueChar_of_mem hp List.mem_cons_self)
  cases hv with
  | word _ hstart => simp [isNameChar, hstart] at hc
  | number hx =>
    obtain ⟨d, rest', heq, hd⟩ := hx.head
    obtain ⟨rfl, -⟩ := List.cons.inj heq
    simp [isNameChar, hd] at hc
  | string => exact absurd rfl hc.2.2.1
  | punct h =>
    have hentry := List.all_eq_true.1 htable _ h
    simp only [Bool.or_eq_true, beq_iff_eq, Bool.and_eq_true, Bool.not_eq_eq_eq_not, Bool.not_true,
      bne_iff_ne, ne_eq] at hentry
    rcases hentry with hcomma | ⟨⟨hword, hcomma⟩, hspaces⟩
    · exact absurd (List.cons.inj hcomma).1 hc.2.2.2.1
    · exact ⟨hword, by simpa using hcomma, hspaces⟩
  | slashEqual => decide

theorem glued_flatten {U : List (TokenKind × List Char)} (hU : ∀ u ∈ U, u.2 ∈ gluedTexts) :
    Glued (U.map Prod.snd).flatten := by
  induction U with
  | nil => exact .nil
  | cons u U ih =>
    exact .cons (hU u List.mem_cons_self) (ih fun v hv => hU v (List.mem_cons_of_mem _ hv))

/-- Glued punctuators are written side by side, and what follows them is spelled as after the
last character they end with. -/
theorem spellChars_glued {U : List (TokenKind × List Char)}
    (hU : ∀ u ∈ U, Lexeme u ∧ u.2 ∈ gluedTexts) (hne : U ≠ []) (b : Bool)
    (rest : List (TokenKind × List Char)) :
    spellChars b (U ++ rest) =
      (U.map Prod.snd).flatten ++ spellChars (endsStarOrAmp (U.map Prod.snd).flatten) rest := by
  induction U generalizing b with
  | nil => exact absurd rfl hne
  | cons u U ih =>
    obtain ⟨k, p⟩ := u
    obtain ⟨hv, hp⟩ := hU (k, p) List.mem_cons_self
    obtain ⟨hword, hcomma, hspaces⟩ := spacesWord_of_glued hv hp
    simp only [List.cons_append, spellChars, hword, Bool.false_and, Bool.false_eq_true, if_false,
      hcomma, List.append_nil, List.map_cons, List.flatten_cons, List.append_assoc]
    cases U with
    | nil => simp [hspaces]
    | cons u' U' =>
      -- the rest of the run is not empty, so it decides what follows
      have hU' : ∀ u ∈ u' :: U', Lexeme u ∧ u.2 ∈ gluedTexts :=
        fun u hu => hU u (List.mem_cons_of_mem _ hu)
      have hlast : ((u' :: U').map Prod.snd).flatten ≠ [] := by
        obtain ⟨c, rest', hc⟩ := (hU' u' List.mem_cons_self).1.cons
        simp [hc]
      rw [ih hU' (List.cons_ne_nil _ _), endsStarOrAmp_append hlast]

/-! ## Spelling read back -/

theorem comma_of_isWord {k : TokenKind} (hk : k.isWord = true) : (k == .comma) = false := by
  cases k <;> simp_all [TokenKind.isWord, TokenKind.isMarker]

theorem spacesWord_of_isWord {k : TokenKind} (hk : k.isWord = true) : spacesWord k = true := by
  simp [spacesWord, hk]

/-- Where the spelling of a lexeme and what follows it is read back as a lexeme of the same text,
of a kind spelled alike, and then the reading of the rest, the whole is spelled back as soon as
the rest is. -/
theorem spellChars_lexemes_cons {k k' : TokenKind} {x : List Char}
    {V : List (TokenKind × List Char)} {b : Bool} (hword : k'.isWord = k.isWord)
    (hcomma : (k' == .comma) = (k == .comma)) (hspaces : spacesWord k' = spacesWord k)
    (hread : lexemes (spellChars b ((k, x) :: V)) = (k', x) :: lexemes (spellChars (spacesWord k) V))
    (ih : spellChars (spacesWord k) (lexemes (spellChars (spacesWord k) V)) =
      spellChars (spacesWord k) V) :
    spellChars b (lexemes (spellChars b ((k, x) :: V))) = spellChars b ((k, x) :: V) := by
  rw [hread]
  simp only [spellChars, hword, hcomma, hspaces, ih]

/-- A word or a number, spelled before other lexemes, is read back as a word of the same text. -/
theorem lexemes_spellChars_wordLike {k : TokenKind} {x : List Char}
    {V : List (TokenKind × List Char)} (hx : Lexeme (k, x)) (hk : k.isWord = true)
    (hread : ∀ W, StopsWord W → ∃ k', k'.isWord = true ∧ lexemes (x ++ W) = (k', x) :: lexemes W)
    (hV : ∀ v ∈ V, Lexeme v) (b : Bool) :
    ∃ k', k'.isWord = true ∧
      lexemes (spellChars b ((k, x) :: V)) = (k', x) :: lexemes (spellChars true V) := by
  obtain ⟨k', hk', hlex⟩ := hread _ (stopsWord_spellChars_true hV)
  refine ⟨k', hk', ?_⟩
  cases b
  · simpa [spellChars, hk, comma_of_isWord hk, spacesWord_of_isWord hk] using hlex
  · -- the blank written before the word is skipped
    have hblank : ∀ z ∈ (x ++ spellChars true V).head?, isBlank z = false := by
      obtain ⟨c, rest, rfl⟩ := hx.cons
      exact fun z hz => hx.head_not_blank z (by simpa using hz)
    simp only [spellChars, hk, comma_of_isWord hk, spacesWord_of_isWord hk, Bool.and_self,
      if_true, Bool.false_eq_true, if_false, List.append_nil, List.cons_append]
    rw [lexemes_blank hblank, hlex]

/-- So the whole is spelled back as soon as what follows the word is. -/
theorem spellChars_lexemes_wordLike {k k' : TokenKind} {x : List Char}
    {V : List (TokenKind × List Char)} {b : Bool} (hk : k.isWord = true) (hk' : k'.isWord = true)
    (hread : lexemes (spellChars b ((k, x) :: V)) = (k', x) :: lexemes (spellChars true V))
    (ih : spellChars true (lexemes (spellChars true V)) = spellChars true V) :
    spellChars b (lexemes (spellChars b ((k, x) :: V))) = spellChars b ((k, x) :: V) := by
  have hspaces := spacesWord_of_isWord hk
  refine spellChars_lexemes_cons (hk'.trans hk.symm)
    ((comma_of_isWord hk').trans (comma_of_isWord hk).symm)
    ((spacesWord_of_isWord hk').trans hspaces.symm) (by rwa [hspaces]) (by rwa [hspaces])

/-- A quoted text, spelled before other lexemes, is read back as itself. -/
theorem lexemes_spellChars_string {body : List Char} (h : quotedLength body = (body.length, true))
    (V : List (TokenKind × List Char)) (b : Bool) :
    lexemes (spellChars b ((.string, '"' :: body) :: V)) =
      (.string, '"' :: body) :: lexemes (spellChars false V) := by
  have hspaces : spacesWord .string = false := rfl
  simpa [spellChars, hspaces, TokenKind.isWord, TokenKind.isMarker] using
    lexemes_string_append h (spellChars false V)

/-- A comma, spelled with its blank before other lexemes, is read back as a comma. -/
theorem lexemes_spellChars_comma {V : List (TokenKind × List Char)} (hV : ∀ v ∈ V, Lexeme v)
    (b : Bool) :
    lexemes (spellChars b ((.comma, [',']) :: V)) = (.comma, [',']) :: lexemes (spellChars false V) := by
  have hspaces : spacesWord .comma = false := rfl
  simp only [spellChars, hspaces, TokenKind.isWord, TokenKind.isMarker, Bool.false_and,
    Bool.false_eq_true, if_false, beq_self_eq_true, if_true, List.cons_append, List.nil_append]
  rw [lexemes_comma, lexemes_blank (head_spellChars_false hV)]

/-- Whether a lexeme is a glued punctuator. -/
def isGluedLexeme (v : TokenKind × List Char) : Bool := decide (v.2 ∈ gluedTexts)

/-- A run of glued punctuators, spelled before other lexemes, is spelled back as soon as what
follows the run is: the punctuators read from the run spell the same characters and end with the
same one. -/
theorem spellChars_lexemes_run {v : TokenKind × List Char} {V : List (TokenKind × List Char)}
    (hV : ∀ u ∈ v :: V, Lexeme u) (hv : v.2 ∈ gluedTexts) (b : Bool)
    (ih : ∀ b', spellChars b' (lexemes (spellChars b' ((v :: V).dropWhile isGluedLexeme))) =
      spellChars b' ((v :: V).dropWhile isGluedLexeme)) :
    spellChars b (lexemes (spellChars b (v :: V))) = spellChars b (v :: V) := by
  -- the run is the longest stretch of glued punctuators at the front
  have hsplit := (List.takeWhile_append_dropWhile (p := isGluedLexeme) (l := v :: V)).symm
  generalize hU : (v :: V).takeWhile isGluedLexeme = U at hsplit
  generalize hrest : (v :: V).dropWhile isGluedLexeme = rest at hsplit ih
  have hrun : ∀ u ∈ U, Lexeme u ∧ u.2 ∈ gluedTexts := fun u hu => by
    rw [← hU] at hu
    exact ⟨hV u ((List.takeWhile_sublist _).subset hu), by
      simpa [isGluedLexeme] using List.all_eq_true.1 List.all_takeWhile u hu⟩
  have hUne : U ≠ [] := by
    rw [← hU, List.takeWhile_cons, if_pos (by simpa [isGluedLexeme] using hv)]
    exact List.cons_ne_nil _ _
  have hrestLex : ∀ u ∈ rest, Lexeme u := fun u hu => by
    rw [← hrest] at hu
    exact hV u ((List.dropWhile_sublist _).subset hu)
  have hhead : ∀ u ∈ rest.head?, u.2 ∉ gluedTexts := fun u hu => by
    have hnot := List.head?_dropWhile_not isGluedLexeme (v :: V)
    rw [hrest, Option.mem_def.1 hu] at hnot
    simpa [isGluedLexeme] using hnot
  -- the run is read back as punctuators that spell it
  have hne : (U.map Prod.snd).flatten ≠ [] := by
    obtain ⟨u, U', rfl⟩ := List.exists_cons_of_ne_nil hUne
    obtain ⟨c, cs, hc⟩ := (hrun u List.mem_cons_self).1.cons
    simp [hc]
  obtain ⟨P, hP, hflat, hPrun⟩ := lexemes_glued (glued_flatten fun u hu => (hrun u hu).2)
    (head_spellChars_not_glue hrestLex hhead (endsStarOrAmp (U.map Prod.snd).flatten))
  have hPne : P ≠ [] := by
    rintro rfl
    exact hne hflat.symm
  rw [hsplit, spellChars_glued hrun hUne, hP, spellChars_glued hPrun hPne, hflat, ih]

/-- Spelling the lexemes read from a spelling gives the spelling back. -/
theorem spellChars_lexemes_spellChars {V : List (TokenKind × List Char)} (hV : ∀ v ∈ V, Lexeme v)
    (b : Bool) : spellChars b (lexemes (spellChars b V)) = spellChars b V := by
  -- on the number of lexemes: a run of glued punctuators is dealt with as a whole
  induction hlen : V.length using Nat.strong_induction_on generalizing V b with
  | _ n ih =>
  match V, hV with
  | [], _ => simp [spellChars, lexemes]
  | (k, x) :: V', hV =>
    have hv := hV (k, x) List.mem_cons_self
    have hV' : ∀ v ∈ V', Lexeme v := fun v hv' => hV v (List.mem_cons_of_mem _ hv')
    have ih' : ∀ b', spellChars b' (lexemes (spellChars b' V')) = spellChars b' V' :=
      fun b' => ih V'.length (by simp [← hlen]) hV' b' rfl
    by_cases hglued : x ∈ gluedTexts
    · refine spellChars_lexemes_run hV hglued b fun b' => ?_
      have hshorter : ((k, x) :: V').dropWhile isGluedLexeme = V'.dropWhile isGluedLexeme := by
        rw [List.dropWhile_cons, if_pos (by simpa [isGluedLexeme] using hglued)]
      rw [hshorter]
      refine ih _ ?_ (fun u hu => hV' u ((List.dropWhile_sublist _).subset hu)) b' rfl
      have := (List.dropWhile_sublist isGluedLexeme (l := V')).length_le
      simp only [List.length_cons] at hlen
      omega
    · cases hv with
      | word hk hc hw =>
        obtain ⟨k', hk', hread⟩ := lexemes_spellChars_wordLike (hV _ List.mem_cons_self) hk
          (fun W hW => ⟨_, isWord_wordKindBefore _ _, lexemes_word_append hc hw hW⟩) hV' b
        exact spellChars_lexemes_wordLike hk hk' hread (ih' true)
      | number hx =>
        obtain ⟨k', hk', hread⟩ := lexemes_spellChars_wordLike (hV _ List.mem_cons_self) rfl
          (fun W hW => ⟨_, rfl, lexemes_number_append hx hW⟩) hV' b
        exact spellChars_lexemes_wordLike rfl hk' hread (ih' true)
      | string h =>
        exact spellChars_lexemes_cons rfl rfl rfl (lexemes_spellChars_string h V' b) (ih' _)
      | punct h =>
        -- the one entry of the table that is not glued is the comma
        have hcomma : x = [','] := by
          by_contra hne
          exact hglued (mem_gluedTexts h hne)
        subst hcomma
        obtain rfl := (hV _ List.mem_cons_self).eq_comma
        exact spellChars_lexemes_cons rfl rfl rfl (lexemes_spellChars_comma hV' b) (ih' _)
      | slashEqual => exact absurd slashEqual_mem_gluedTexts hglued

end Token

/-- Scanning the spelling of a header's tokens and spelling the tokens found gives the same
text: spelling is idempotent. -/
theorem spell_tokenize_spell (s : String) :
    Token.spell (tokenize (Token.spell (tokenize s).body.toList)).body.toList =
      Token.spell (tokenize s).body.toList := by
  apply String.ext
  rw [Token.toList_spell, lexemes_tokenize, Token.toList_spell, lexemes_tokenize]
  exact Token.spellChars_lexemes_spellChars (fun v hv => lexeme_of_mem_lexemes hv) false

end TypeReflection
