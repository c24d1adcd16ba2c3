import TypeReflection.Proofs.Token.Join
import TypeReflection.Token.Spelling

/-!
# The lexemes of a scan

Spelling a run of tokens looks only at their kinds and texts. `Scan.lexemes` is the scan with
positions and anomalies left out: the kind and the characters of each token, in order
(`lexemes_tokenize`). Every one of them is a *lexeme* (`Scan.Lexeme`) of one of five shapes: a
word of name characters, a number as the number reading takes it, a closed quoted text, an entry
of the punctuator table, or `/=`. The numbers are described by a small grammar (`NumberText`):
digits with an optional fraction and exponent, or a hexadecimal constant. One inversion lemma says so for the token of a step
(`lexeme_of_step`), and the scan inherits it (`lexeme_of_mem_lexemes`).

`Token.spellChars` spells such pairs as characters (`toList_spellAfter`). What it carries from one
token to the next is one bit: whether a word that comes next is written apart (`spacesWord`).
-/

set_option autoImplicit false

namespace TypeReflection

/-- The kind and the characters of a token. -/
def Token.lexeme (t : Token) : TokenKind × List Char := (t.kind, t.text.toList)

namespace Scan

/-- The kinds and characters of the tokens of a scan of `cs`, in order. -/
def lexemes : List Char → List (TokenKind × List Char)
  | [] => []
  | c :: rest =>
    match step c rest with
    | (.token kind, more) => (kind, c :: rest.take more) :: lexemes (rest.drop more)
    | (_, more) => lexemes (rest.drop more)
termination_by cs => cs.length
decreasing_by
  all_goals simp only [List.length_drop, List.length_cons]
  all_goals omega

theorem lexemes_of_token {c : Char} {rest : List Char} {k : TokenKind} {n : Nat}
    (h : step c rest = (.token k, n)) :
    lexemes (c :: rest) = (k, c :: rest.take n) :: lexemes (rest.drop n) := by
  rw [lexemes, h]

theorem lexemes_of_skip {c : Char} {rest : List Char} {p : Piece} {n : Nat}
    (h : step c rest = (p, n)) (hp : ∀ k, p ≠ .token k) :
    lexemes (c :: rest) = lexemes (rest.drop n) := by
  rw [lexemes, h]
  cases p with
  | token k => exact absurd rfl (hp k)
  | _ => rfl

/-- The tokens a scan adds, end of input apart, are the lexemes of the text it reads. -/
theorem body_scanFrom (cs : List Char) (pos : Position) (found : TokenStream) :
    ((scanFrom cs pos found).tokens.toList.filter (·.kind != .eof)).map Token.lexeme =
      (found.tokens.toList.filter (·.kind != .eof)).map Token.lexeme ++ lexemes cs := by
  fun_induction scanFrom cs pos found with
  | case1 pos found => simp [Token.endOfInput, lexemes]
  | case2 pos found c rest piece more hstepEq taken span found' ih =>
    rw [ih]
    cases hpiece : piece with
    | token kind =>
      have hkind : kind ≠ .eof := by
        rintro rfl
        exact step_ne_eof c rest more (by rw [← hpiece]; exact hstepEq)
      rw [lexemes_of_token (by rw [← hpiece]; exact hstepEq)]
      simp [found', hpiece, hkind, Token.lexeme, taken]
    | gap | malformedNumber | unterminatedString | stray =>
      rw [lexemes_of_skip hstepEq (by rw [hpiece]; simp)]
      simp [found', hpiece]

theorem lexemes_tokenize (text : String) :
    (tokenize text).body.toList.map Token.lexeme = lexemes text.toList := by
  simpa [tokenize, TokenStream.body, Array.toList_filter] using
    body_scanFrom text.toList Position.start ⟨#[], #[]⟩

/-! ## Word kinds -/

theorem isWord_wordKind (word : List Char) : (wordKind word).isWord = true := by
  unfold wordKind
  split <;> rfl

theorem isWord_wordKindBefore (word after : List Char) :
    (wordKindBefore word after).isWord = true := by
  unfold wordKindBefore
  split
  · split
    · rfl
    · exact isWord_wordKind word
  · exact isWord_wordKind word

/-! ## Number texts -/

theorem forall_take_countWhile (p : Char → Bool) (cs : List Char) :
    ∀ x ∈ cs.take (countWhile p cs), p x = true := by
  rw [take_countWhile]
  exact fun x hx => List.all_eq_true.1 List.all_takeWhile x hx

theorem take_countWhile_ne_nil {p : Char → Bool} {cs : List Char} (h : countWhile p cs ≠ 0) :
    cs.take (countWhile p cs) ≠ [] := by
  cases cs with
  | nil => exact absurd rfl h
  | cons c cs => simpa [List.take_eq_nil_iff] using h

/-- An optional exponent: `e` or `E`, an optional sign, and at least one digit. -/
inductive ExponentText : List Char → Prop
  | none : ExponentText []
  | some {c : Char} {sign digits : List Char} (hc : c = 'e' ∨ c = 'E')
      (hsign : sign = [] ∨ sign = ['+'] ∨ sign = ['-']) (hne : digits ≠ [])
      (hdigits : ∀ d ∈ digits, d.isDigit = true) : ExponentText (c :: sign ++ digits)

/-- An optional fraction: a dot and any digits after it. -/
inductive FractionText : List Char → Prop
  | none : FractionText []
  | dot {digits : List Char} (hdigits : ∀ d ∈ digits, d.isDigit = true) :
      FractionText ('.' :: digits)

/-- The numbers the scanner reads: digits, an optional fraction and an optional exponent; or `0x`
and hexadecimal digits. -/
inductive NumberText : List Char → Prop
  | decimal {whole fraction exponent : List Char} (hne : whole ≠ [])
      (hwhole : ∀ d ∈ whole, d.isDigit = true) (hfraction : FractionText fraction)
      (hexponent : ExponentText exponent) : NumberText (whole ++ fraction ++ exponent)
  | hex {x : Char} {digits : List Char} (hx : x = 'x' ∨ x = 'X') (hne : digits ≠ [])
      (hdigits : ∀ d ∈ digits, isHexDigit d = true) : NumberText ('0' :: x :: digits)

/-- The exponent reading takes an exponent. -/
theorem exponentText_take (cs : List Char) : ExponentText (cs.take (exponentLength cs)) := by
  match cs with
  | [] => exact .none
  | [c] => simpa [exponentLength, countWhile] using ExponentText.none
  | c :: s :: t =>
    by_cases he : (c == 'e' || c == 'E') = true
    · have hc : c = 'e' ∨ c = 'E' := by simpa using he
      -- the sign is taken when one follows the letter, and the digits after it
      by_cases hs : (s == '+' || s == '-') = true
      · have hsign : [s] = [] ∨ [s] = ['+'] ∨ [s] = ['-'] := by
          simp only [Bool.or_eq_true, beq_iff_eq] at hs
          rcases hs with rfl | rfl <;> simp
        by_cases hd : countWhile Char.isDigit t = 0
        · simpa [exponentLength, he, hs, hd] using ExponentText.none
        · have hlen : exponentLength (c :: s :: t) = countWhile Char.isDigit t + 1 + 1 := by
            simp [exponentLength, he, hs, hd]
            omega
          rw [hlen, List.take_succ_cons, List.take_succ_cons]
          exact .some hc hsign (take_countWhile_ne_nil hd) (forall_take_countWhile _ t)
      · by_cases hd : countWhile Char.isDigit (s :: t) = 0
        · simpa [exponentLength, he, hs, hd] using ExponentText.none
        · have hlen : exponentLength (c :: s :: t) = countWhile Char.isDigit (s :: t) + 1 := by
            simp only [exponentLength, he, hs] at hd ⊢
            simp [hd]
            omega
          rw [hlen, List.take_succ_cons]
          -- no sign: the digits follow the letter
          have hnone : ExponentText (c :: [] ++ (s :: t).take (countWhile Char.isDigit (s :: t))) :=
            .some hc (.inl rfl) (take_countWhile_ne_nil hd) (forall_take_countWhile _ (s :: t))
          exact hnone
    · rw [exponentLength_of_not he]
      exact .none

/-- The decimal reading of a number, which `numberLength` weighs against the hexadecimal one; a
bare dot counts as a fraction of no digits. -/
def decimalLength (cs : List Char) : Nat :=
  match cs.drop (countWhile Char.isDigit cs) with
  | '.' :: afterDot =>
    countWhile Char.isDigit cs + 1 + countWhile Char.isDigit afterDot +
      exponentLength (afterDot.drop (countWhile Char.isDigit afterDot))
  | rest => countWhile Char.isDigit cs + exponentLength rest

theorem numberLength_eq (cs : List Char) :
    numberLength cs = max (decimalLength cs) (hexLength cs) := by
  unfold numberLength decimalLength
  dsimp only
  -- the two readings split on the same text after the digits; where both are one match, one
  -- split settles both
  split <;> (try split) <;> simp_all

/-- The decimal reading takes digits, then an optional fraction and exponent. -/
theorem numberText_take_decimal {cs : List Char} (hwhole : countWhile Char.isDigit cs ≠ 0) :
    NumberText (cs.take (decimalLength cs)) := by
  have hD := take_countWhile_ne_nil hwhole
  have hdigits := forall_take_countWhile Char.isDigit cs
  unfold decimalLength
  -- split the text where the digits end
  generalize hw : countWhile Char.isDigit cs = w at hD hdigits
  have hsplit : ∀ n, cs.take (w + n) = cs.take w ++ (cs.drop w).take n := fun n => List.take_add
  split
  · next afterDot hdot =>
    rw [show w + 1 + countWhile Char.isDigit afterDot +
        exponentLength (afterDot.drop (countWhile Char.isDigit afterDot)) =
        w + (countWhile Char.isDigit afterDot + exponentLength
          (afterDot.drop (countWhile Char.isDigit afterDot)) + 1) by omega,
      hsplit, hdot, List.take_succ_cons, List.take_add, ← List.cons_append, ← List.append_assoc]
    exact .decimal hD hdigits (.dot (forall_take_countWhile _ afterDot)) (exponentText_take _)
  · next rest hrest =>
    rw [hsplit, ← List.append_nil (cs.take w)]
    exact .decimal hD hdigits .none (exponentText_take _)

/-- A hexadecimal number: `0x` and at least one hexadecimal digit. -/
theorem hexLength_ne_zero {cs : List Char} (h : hexLength cs ≠ 0) :
    ∃ x rest, cs = '0' :: x :: rest ∧ (x = 'x' ∨ x = 'X') ∧ countWhile isHexDigit rest ≠ 0 ∧
      hexLength cs = countWhile isHexDigit rest + 1 + 1 := by
  unfold hexLength at h ⊢
  split at h
  · next x rest =>
    split at h
    · next hx =>
      dsimp only at h ⊢
      split at h
      · exact absurd rfl h
      · next hd =>
        refine ⟨x, rest, rfl, by simpa using hx, by simpa using hd, ?_⟩
        rw [if_pos hx, if_neg hd]
        omega
    · exact absurd rfl h
  · exact absurd rfl h

/-- A hexadecimal number leaves the decimal reading only its leading zero. -/
theorem decimalLength_hex {x : Char} (hx : x = 'x' ∨ x = 'X') (rest : List Char) :
    decimalLength ('0' :: x :: rest) = 1 := by
  rcases hx with rfl | rfl <;> simp [decimalLength, countWhile, exponentLength_of_not]

/-- The number reading takes a number. -/
theorem numberText_take {c : Char} (hc : c.isDigit = true) (rest : List Char) :
    NumberText ((c :: rest).take (numberLength (c :: rest))) := by
  have hwhole : countWhile Char.isDigit (c :: rest) ≠ 0 := by simp [countWhile, hc]
  rw [numberLength_eq]
  by_cases h0 : hexLength (c :: rest) = 0
  · rw [h0, Nat.max_zero]
    exact numberText_take_decimal hwhole
  · obtain ⟨x, r, hcs, hx, hdigits, hlen⟩ := hexLength_ne_zero h0
    rw [hlen, hcs, decimalLength_hex hx, Nat.max_eq_right (by omega), List.take_succ_cons,
      List.take_succ_cons]
    exact .hex hx (take_countWhile_ne_nil hdigits) (forall_take_countWhile _ r)

/-- A text that starts with a digit starts with a number of at least that digit. -/
theorem numberLength_pos {c : Char} (hc : c.isDigit = true) (rest : List Char) :
    1 ≤ numberLength (c :: rest) := by
  have hwhole : 1 ≤ countWhile Char.isDigit (c :: rest) := by simp [countWhile, hc]
  rw [numberLength_eq]
  refine Nat.le_trans ?_ (Nat.le_max_left _ _)
  unfold decimalLength
  split <;> omega

/-! ## Lexemes of a step -/

theorem punctuators_nonempty : ∀ p ∈ punctuators, p.1 ≠ [] := by
  have hall : punctuators.all (fun p => !p.1.isEmpty) = true := by decide
  intro p hp
  simpa using List.all_eq_true.1 hall p hp

/-- Punctuation reads an entry of the table that starts the text, as long as the entry. -/
theorem punctuation_eq_some {cs : List Char} {k : TokenKind} {n : Nat}
    (h : punctuation cs = some (k, n)) : ∃ p, (p, k) ∈ punctuators ∧ p <+: cs ∧ n = p.length := by
  obtain ⟨⟨p, k'⟩, hfind, hpk⟩ := Option.map_eq_some_iff.1 h
  simp only [Prod.mk.injEq] at hpk
  obtain ⟨rfl, rfl⟩ := hpk
  refine ⟨p, List.mem_of_find?_eq_some hfind, List.isPrefixOf_iff_prefix.1 ?_, rfl⟩
  simpa using List.find?_some hfind

/-- The texts a scan reads as tokens, with their kinds. -/
inductive Lexeme : TokenKind × List Char → Prop
  /-- A name, keyword or marker: a character that may start a name, then name characters. -/
  | word {k : TokenKind} {c : Char} {w : List Char} (hk : k.isWord = true)
      (hc : isNameStart c = true) (hw : ∀ x ∈ w, isNameChar x = true) : Lexeme (k, c :: w)
  /-- A number. -/
  | number {x : List Char} (hx : NumberText x) : Lexeme (.number, x)
  /-- A quoted text: the opening quote, then a body that the quoted reading takes whole, closing
  quote included. -/
  | string {body : List Char} (h : quotedLength body = (body.length, true)) :
      Lexeme (.string, '"' :: body)
  /-- An entry of the punctuator table. -/
  | punct {k : TokenKind} {p : List Char} (h : (p, k) ∈ punctuators) : Lexeme (k, p)
  /-- The one punctuator outside the table, read where a slash opens no comment. -/
  | slashEqual : Lexeme (.slashEqual, ['/', '='])

/-- A closed quoted text is read the same when nothing follows it. -/
theorem quotedLength_take {cs : List Char} {n : Nat} (h : quotedLength cs = (n, true)) :
    quotedLength (cs.take n) = ((cs.take n).length, true) := by
  fun_induction quotedLength cs generalizing n with
  | case1 => simp at h
  | case2 rest =>
    obtain ⟨rfl, -⟩ := Prod.mk.inj h
    rfl
  | case3 c cs hc => simp at h
  | case4 c cs hc m closed hrec ih =>
    obtain ⟨rfl, rfl⟩ := Prod.mk.inj h
    rw [List.take_succ_cons, List.take_succ_cons, quotedLength.eq_3, if_neg hc, ih hrec]
    simp
  | case5 => simp at h
  | case6 c cs hquote hesc hlast m closed hrec ih =>
    obtain ⟨rfl, rfl⟩ := Prod.mk.inj h
    rw [List.take_succ_cons, quotedLength_cons_plain hquote (ne_backslash_of_not_escape hesc hlast),
      ih hrec]
    simp

/-- Every token a step reads is a lexeme. -/
theorem lexeme_of_step {c : Char} {rest : List Char} {k : TokenKind} {n : Nat}
    (h : step c rest = (.token k, n)) : Lexeme (k, c :: rest.take n) := by
  unfold step at h
  split at h
  · simp at h
  split at h
  · -- a slash is a comment, `/=` or stray
    next hslash =>
    split at h
    · simp at h
    · simp at h
    · next tail =>
      obtain ⟨hk, rfl⟩ := Prod.mk.inj h
      cases Piece.token.inj hk
      rw [show c = '/' by simpa using hslash]
      exact .slashEqual
    · simp at h
  split at h
  · next hc =>
    obtain ⟨hk, rfl⟩ := Prod.mk.inj h
    cases Piece.token.inj hk
    refine .word (isWord_wordKindBefore _ _) hc fun x hx => ?_
    rw [take_countWhile] at hx
    exact List.all_eq_true.1 List.all_takeWhile x hx
  split at h
  · next hd =>
    dsimp only at h
    split at h
    · simp at h
    · obtain ⟨hk, rfl⟩ := Prod.mk.inj h
      cases Piece.token.inj hk
      -- the step counts the digit apart from what follows it
      have hpos := numberLength_pos hd rest
      have htake : c :: rest.take (numberLength (c :: rest) - 1) =
          (c :: rest).take (numberLength (c :: rest)) := by
        rw [← List.take_succ_cons, Nat.sub_add_cancel hpos]
      rw [htake]
      exact .number (numberText_take hd rest)
  split at h
  · next hq =>
    obtain ⟨hpiece, rfl⟩ := Prod.mk.inj h
    split at hpiece
    · next hclosed =>
      cases Piece.token.inj hpiece
      rw [show c = '"' by simpa using hq]
      exact .string (quotedLength_take (Prod.ext rfl hclosed))
    · simp at hpiece
  · split at h
    · next kind m hp =>
      obtain ⟨hk, rfl⟩ := Prod.mk.inj h
      cases Piece.token.inj hk
      obtain ⟨p, hmem, hpre, rfl⟩ := punctuation_eq_some hp
      -- the entry is the text the step takes: it starts the text and is not empty
      obtain ⟨d, ds, rfl⟩ := List.exists_cons_of_ne_nil (punctuators_nonempty _ hmem)
      obtain ⟨rfl, hds⟩ := List.cons_prefix_cons.1 hpre
      rw [List.length_cons, Nat.add_sub_cancel, ← List.prefix_iff_eq_take.1 hds]
      exact .punct hmem
    · simp at h

/-- Every lexeme of a scan is a lexeme. -/
theorem lexeme_of_mem_lexemes {cs : List Char} {v : TokenKind × List Char} (hv : v ∈ lexemes cs) :
    Lexeme v := by
  induction cs using lexemes.induct with
  | case1 => simp [lexemes] at hv
  | case2 c rest kind more hstep ih =>
    rw [lexemes_of_token hstep] at hv
    rcases List.mem_cons.1 hv with rfl | hv
    · exact lexeme_of_step hstep
    · exact ih hv
  | case3 c rest piece more hpiece hstep ih =>
    rw [lexemes_of_skip hstep hpiece] at hv
    exact ih hv

end Scan

/-! ## Spelling as characters -/

namespace Token

/-- Whether a word that follows a token of kind `k` is written apart from it: after a word, a
`*` or a `&`. -/
def spacesWord (k : TokenKind) : Bool := k.isWord || k == .star || k == .amp

theorem blankBefore_eq (prev : Option TokenKind) (k : TokenKind) :
    blankBefore prev k = (k.isWord && prev.any spacesWord) := by
  unfold blankBefore
  split
  · simp
  · simp [spacesWord]
  · simp [spacesWord]
  · next p hstar hamp =>
    simp only [Option.any_some, spacesWord, beq_eq_false_iff_ne.2 hstar,
      beq_eq_false_iff_ne.2 hamp, Bool.or_false]

/-- The spelling of kinds and texts as characters, after a token that asks for a blank before a
word exactly when `spaced` holds. -/
def spellChars (spaced : Bool) : List (TokenKind × List Char) → List Char
  | [] => []
  | (k, x) :: vs =>
    (if k.isWord && spaced then ' ' :: x else x) ++ (if k == .comma then [' '] else []) ++
      spellChars (spacesWord k) vs

theorem toList_spellAfter (prev : Option TokenKind) (ts : List Token) :
    (spellAfter prev ts).toList = spellChars (prev.any spacesWord) (ts.map lexeme) := by
  induction ts generalizing prev with
  | nil => rfl
  | cons t ts ih =>
    rw [spellAfter, List.map_cons, lexeme, spellChars, String.toList_append, ih, blankBefore_eq,
      Option.any_some]
    simp only [String.toList_append]
    split <;> split <;> simp_all

theorem toList_spell (ts : List Token) : (spell ts).toList = spellChars false (ts.map lexeme) :=
  toList_spellAfter none ts

end Token

end TypeReflection
