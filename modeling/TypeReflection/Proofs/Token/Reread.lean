import TypeReflection.Proofs.Token.Lexemes

/-!
# Reading a lexeme back

A lexeme written out, with more text after it, is read back as the same lexeme when what follows
cannot continue it. A word or a number stops at any character that is neither a name character
nor a dot (`endsWord`): the number grammar of `NumberText` is read back whole
(`numberLength_append_stop`) and no malformed number is found there. A quoted text and a comma stop
by themselves, and a blank before a non-blank is one gap.

Punctuation is different: the scanner reads the longest entry of its table, so punctuators
written side by side may be read as other ones (`<` and `=` as `<=`). Every entry but the comma
is made of characters that glue to each other (`isGlueChar`), and every proper end of an entry is
an entry again. So a run of them (`Glued`) is read back as entries that spell the same text,
whatever stops the run (`lexemes_glued`).
-/

set_option autoImplicit false

namespace TypeReflection.Scan

/-! ## Characters -/

theorem isNameStart_iff (c : Char) : isNameStart c = true ↔
    ((65 ≤ c.toNat ∧ c.toNat ≤ 90 ∨ 97 ≤ c.toNat ∧ c.toNat ≤ 122) ∨ c.toNat = 95) ∨
      ((192 ≤ c.toNat ∧ c.toNat ≤ 255) ∧ c.toNat ≠ 215) ∧ c.toNat ≠ 247 := by
  -- the library's letter tests are expanded in place: their equation lemmas belong to modules
  -- outside this library's imports
  rw [isNameStart]
  delta Char.isAlpha Char.isUpper Char.isLower
  simp only [isLatinLetter, Bool.or_eq_true, decide_eq_true_eq, ge_iff_le,
    UInt32.le_iff_toNat_le, Char.toNat_val, beq_iff_eq, Bool.and_eq_true, bne_iff_ne, ne_eq,
    Char.reduceToNat, ← Char.toNat_inj]

theorem isNameStart_of_isDigit {c : Char} (h : c.isDigit = true) : isNameStart c = false := by
  have hd := Char.isDigit_iff_toNat.1 h
  rw [← Bool.not_eq_true, isNameStart_iff]
  simp only [Char.reduceToNat] at hd
  omega

theorem isNameChar_of_isHexDigit {c : Char} (h : isHexDigit c = true) : isNameChar c = true := by
  simp only [isHexDigit, Bool.or_eq_true, Bool.and_eq_true, decide_eq_true_eq, Char.le_def,
    UInt32.le_iff_toNat_le, Char.toNat_val, Char.reduceToNat, Char.isDigit_iff_toNat] at h
  simp only [isNameChar, Bool.or_eq_true, isNameStart_iff, Char.isDigit_iff_toNat,
    Char.reduceToNat]
  omega

theorem isBlank_of_isNameChar {c : Char} (h : isNameChar c = true) : isBlank c = false := by
  rw [← Bool.not_eq_true]
  intro hb
  simp only [isBlank, Bool.or_eq_true, beq_iff_eq] at hb
  rcases hb with (((((rfl | rfl) | rfl) | rfl) | rfl) | rfl) <;> revert h <;> decide

/-- The characters that end a word or a number: neither a name character nor a dot. -/
def endsWord (z : Char) : Bool := !isNameChar z && z != '.'

theorem endsWord_facts {z : Char} (h : endsWord z = true) :
    isNameChar z = false ∧ z.isDigit = false ∧ isHexDigit z = false ∧ z ≠ '.' ∧ z ≠ 'e' ∧
      z ≠ 'E' ∧ z ≠ 'x' ∧ z ≠ 'X' := by
  simp only [endsWord, Bool.and_eq_true, Bool.not_eq_eq_eq_not, Bool.not_true, bne_iff_ne,
    ne_eq] at h
  obtain ⟨hn, hdot⟩ := h
  have hd : z.isDigit = false := by
    simp only [isNameChar, Bool.or_eq_false_iff] at hn
    exact hn.2
  have hhex : isHexDigit z = false := by
    cases hx : isHexDigit z
    · rfl
    · rw [isNameChar_of_isHexDigit hx] at hn
      cases hn
  refine ⟨hn, hd, hhex, hdot, ?_, ?_, ?_, ?_⟩ <;> (rintro rfl; revert hn; decide)

/-- The text starts with a character that ends a word or a number, or is empty. -/
def StopsWord (Z : List Char) : Prop := ∀ z ∈ Z.head?, endsWord z = true

/-! ## Counts -/

theorem countWhile_eq_zero {p : Char → Bool} {cs : List Char} (h : ∀ z ∈ cs.head?, p z = false) :
    countWhile p cs = 0 := by
  cases cs with
  | nil => rfl
  | cons c cs => simp [countWhile, h c rfl]

/-- A count over characters it accepts stops where a character it refuses follows them. -/
theorem countWhile_append_stop {p : Char → Bool} {l Z : List Char} (hl : ∀ x ∈ l, p x = true)
    (hZ : ∀ z ∈ Z.head?, p z = false) : countWhile p (l ++ Z) = l.length := by
  rw [countWhile_append_of_all hl, countWhile_eq_zero hZ, Nat.add_zero]

/-! ## Numbers -/

theorem isDigit_ne_sign {d : Char} (hd : d.isDigit = true) : (d == '+' || d == '-') = false := by
  have h := Char.isDigit_iff_toNat.1 hd
  simp only [Char.reduceToNat] at h
  simp only [Bool.or_eq_false_iff, beq_eq_false_iff_ne, ne_eq, ← Char.toNat_inj,
    Char.reduceToNat]
  omega

/-- An exponent is read back whole when no digit follows it, and no exponent is read where none
was written when no exponent letter follows. -/
theorem exponentLength_append_stop {E Z : List Char} (hE : ExponentText E) (hZ : StopsWord Z) :
    exponentLength (E ++ Z) = E.length := by
  cases hE with
  | none =>
    cases Z with
    | nil => rfl
    | cons z Z =>
      obtain ⟨-, -, -, -, he, hE, -, -⟩ := endsWord_facts (hZ z rfl)
      exact exponentLength_of_not (by simp [he, hE]) Z
  | some hc hsign hne hdigits =>
    next c sign digits =>
    obtain ⟨d, ds, rfl⟩ := List.exists_cons_of_ne_nil hne
    have hcount : countWhile Char.isDigit (d :: ds ++ Z) = ds.length + 1 :=
      countWhile_append_stop hdigits fun z hz => (endsWord_facts (hZ z hz)).2.1
    have he : (c == 'e' || c == 'E') = true := by rcases hc with rfl | rfl <;> rfl
    -- the sign is read where one was written, and a digit is never taken for one
    rcases hsign with rfl | rfl | rfl
    · have hd := isDigit_ne_sign (hdigits d List.mem_cons_self)
      simp only [List.nil_append, List.cons_append] at hcount ⊢
      simp [exponentLength, he, hd, hcount]
      omega
    · simp only [List.cons_append] at hcount ⊢
      simp [exponentLength, he, hcount]
      omega
    · simp only [List.cons_append] at hcount ⊢
      simp [exponentLength, he, hcount]
      omega

/-- What follows an exponent, or stands where none was written: no digit, dot or `x`. -/
theorem head_exponent_append {E Z : List Char} (hE : ExponentText E) (hZ : StopsWord Z) :
    ∀ z ∈ (E ++ Z).head?, z.isDigit = false ∧ z ≠ '.' ∧ z ≠ 'x' ∧ z ≠ 'X' := by
  cases hE with
  | none =>
    intro z hz
    obtain ⟨-, hd, -, hdot, -, -, hx, hX⟩ := endsWord_facts (hZ z hz)
    exact ⟨hd, hdot, hx, hX⟩
  | some hc =>
    intro z hz
    simp only [List.cons_append, List.head?_cons, Option.mem_def, Option.some.injEq] at hz
    subst hz
    rcases hc with rfl | rfl <;> decide

/-- What follows the digits of a number: no digit and no `x`. -/
theorem head_fraction_append {F E Z : List Char} (hF : FractionText F) (hE : ExponentText E)
    (hZ : StopsWord Z) : ∀ z ∈ (F ++ E ++ Z).head?, z.isDigit = false ∧ z ≠ 'x' ∧ z ≠ 'X' := by
  cases hF with
  | none =>
    intro z hz
    obtain ⟨hd, -, hx, hX⟩ := head_exponent_append hE hZ z (by simpa using hz)
    exact ⟨hd, hx, hX⟩
  | dot =>
    intro z hz
    simp only [List.cons_append, List.head?_cons, Option.mem_def, Option.some.injEq] at hz
    subst hz
    decide

theorem hexLength_cons_of_head {d : Char} {l : List Char} (h : ∀ y ∈ l.head?, y ≠ 'x' ∧ y ≠ 'X') :
    hexLength (d :: l) = 0 := by
  unfold hexLength
  split
  · next y rest heq =>
    obtain ⟨-, rfl⟩ := List.cons.inj heq
    obtain ⟨h1, h2⟩ := h y rfl
    simp [h1, h2]
  · rfl

/-- The malformed-number reading finds nothing when no dot follows the exponent read after a
fraction. -/
theorem malformedLength_of_dot {cs afterDot : List Char}
    (hdot : cs.drop (countWhile Char.isDigit cs) = '.' :: afterDot)
    (h : ∀ z ∈ ((afterDot.drop (countWhile Char.isDigit afterDot)).drop
      (exponentLength (afterDot.drop (countWhile Char.isDigit afterDot)))).head?, z ≠ '.') :
    malformedLength cs = 0 := by
  unfold malformedLength
  dsimp only
  rw [hdot]
  split
  · next heq =>
    obtain ⟨-, rfl⟩ := List.cons.inj heq
    split
    · rfl
    · split
      · simp_all
      · rfl
  · next hne => exact absurd rfl (hne afterDot)

/-- The same without a fraction. -/
theorem malformedLength_of_not_dot {cs : List Char}
    (hdot : ∀ z ∈ (cs.drop (countWhile Char.isDigit cs)).head?, z ≠ '.')
    (h : ∀ z ∈ ((cs.drop (countWhile Char.isDigit cs)).drop
      (exponentLength (cs.drop (countWhile Char.isDigit cs)))).head?, z ≠ '.') :
    malformedLength cs = 0 := by
  unfold malformedLength
  dsimp only
  generalize cs.drop (countWhile Char.isDigit cs) = rest at hdot h ⊢
  split
  · simp at hdot
  · dsimp only
    split
    · rfl
    · split
      · simp_all
      · rfl

/-- A decimal number is read back whole when what follows it ends it, and is not malformed. -/
theorem decimal_append_stop {W F E Z : List Char} (hne : W ≠ []) (hW : ∀ d ∈ W, d.isDigit = true)
    (hF : FractionText F) (hE : ExponentText E) (hZ : StopsWord Z) :
    numberLength (W ++ F ++ E ++ Z) = (W ++ F ++ E).length ∧
      malformedLength (W ++ F ++ E ++ Z) = 0 := by
  have hafter := head_fraction_append hF hE hZ
  have hcount : countWhile Char.isDigit (W ++ F ++ E ++ Z) = W.length := by
    rw [List.append_assoc, List.append_assoc, countWhile_append_stop hW fun z hz =>
      (hafter z (by rwa [List.append_assoc])).1]
  have hdrop : (W ++ F ++ E ++ Z).drop W.length = F ++ E ++ Z := by
    simp only [List.append_assoc, List.drop_left]
  have hexp := exponentLength_append_stop hE hZ
  -- no hexadecimal number: the character after the first digit is a digit or follows the digits
  have hhex : hexLength (W ++ F ++ E ++ Z) = 0 := by
    obtain ⟨w, W', rfl⟩ := List.exists_cons_of_ne_nil hne
    simp only [List.cons_append]
    refine hexLength_cons_of_head fun y hy => ?_
    cases W' with
    | nil => exact (hafter y (by simpa using hy)).2
    | cons w' W'' =>
      simp only [List.cons_append, List.head?_cons, Option.mem_def, Option.some.injEq] at hy
      have hd := hW w' (by simp)
      rw [← hy]
      constructor <;> (rintro rfl; revert hd; decide)
  cases hF with
  | none =>
    have hdot : ∀ z ∈ (E ++ Z).head?, z ≠ '.' := fun z hz => (head_exponent_append hE hZ z hz).2.1
    simp only [List.append_nil, List.nil_append] at hcount hdrop hhex ⊢
    have hdecimal : decimalLength (W ++ E ++ Z) = W.length + E.length := by
      unfold decimalLength
      rw [hcount, hdrop]
      split
      · next afterDot heq =>
        rw [heq] at hdot
        exact absurd rfl (hdot '.' rfl)
      · rw [hexp]
    refine ⟨by rw [numberLength_eq, hdecimal, hhex]; simp, ?_⟩
    refine malformedLength_of_not_dot (by rwa [hcount, hdrop]) ?_
    rw [hcount, hdrop, hexp, List.drop_left]
    intro z hz
    exact (endsWord_facts (hZ z hz)).2.2.2.1
  | dot hdigits =>
    next digits =>
    have hfraction : countWhile Char.isDigit (digits ++ E ++ Z) = digits.length := by
      rw [List.append_assoc, countWhile_append_stop hdigits fun z hz =>
        (head_exponent_append hE hZ z hz).1]
    have hrest : (digits ++ E ++ Z).drop digits.length = E ++ Z := by
      simp only [List.append_assoc, List.drop_left]
    simp only [List.cons_append] at hdrop
    have hdecimal : decimalLength (W ++ '.' :: digits ++ E ++ Z) =
        W.length + 1 + digits.length + E.length := by
      unfold decimalLength
      rw [hcount, hdrop]
      simp only [List.append_assoc] at hfraction hrest
      simp only [List.append_assoc, hfraction, hrest, hexp]
    refine ⟨by rw [numberLength_eq, hdecimal, hhex]; simp; omega, ?_⟩
    refine malformedLength_of_dot (by rw [hcount, hdrop]) ?_
    rw [hfraction, hrest, hexp, List.drop_left]
    intro z hz
    exact (endsWord_facts (hZ z hz)).2.2.2.1

/-- So is a hexadecimal one. -/
theorem hex_append_stop {x : Char} {H Z : List Char} (hx : x = 'x' ∨ x = 'X') (hne : H ≠ [])
    (hH : ∀ d ∈ H, isHexDigit d = true) (hZ : StopsWord Z) :
    numberLength ('0' :: x :: H ++ Z) = H.length + 2 ∧ malformedLength ('0' :: x :: H ++ Z) = 0 := by
  have hcount : countWhile isHexDigit (H ++ Z) = H.length :=
    countWhile_append_stop hH fun z hz => (endsWord_facts (hZ z hz)).2.2.1
  have hxx : (x == 'x' || x == 'X') = true := by rcases hx with rfl | rfl <;> rfl
  have hnot : x ≠ '.' ∧ x.isDigit = false ∧ ¬(x == 'e' || x == 'E') = true := by
    rcases hx with rfl | rfl <;> decide
  have hlen : H.length ≠ 0 := by simpa using hne
  have hhex : hexLength ('0' :: x :: (H ++ Z)) = H.length + 2 := by
    rw [hexLength.eq_1, if_pos hxx]
    dsimp only
    rw [hcount, if_neg (by simpa using hlen)]
    omega
  simp only [List.cons_append]
  refine ⟨?_, malformedLength_of_not_dot ?_ ?_⟩
  · rw [numberLength_eq, decimalLength_hex hx, hhex]
    omega
  -- the digits end at the `x`, which neither a dot nor an exponent follows
  all_goals
    have hwhole : countWhile Char.isDigit ('0' :: x :: (H ++ Z)) = 1 := by
      simp [countWhile, hnot.2.1]
    rw [hwhole]
  · simpa using hnot.1
  · rw [List.drop_succ_cons, List.drop_zero, exponentLength_of_not hnot.2.2]
    simpa using hnot.1

/-- Every number is read back whole when what follows it ends it, and is not malformed. -/
theorem numberLength_append_stop {x Z : List Char} (hx : NumberText x) (hZ : StopsWord Z) :
    numberLength (x ++ Z) = x.length ∧ malformedLength (x ++ Z) = 0 := by
  cases hx with
  | decimal hne hwhole hfraction hexponent =>
    exact decimal_append_stop hne hwhole hfraction hexponent hZ
  | hex hx hne hdigits =>
    rw [List.length_cons, List.length_cons]
    exact hex_append_stop hx hne hdigits hZ

theorem NumberText.head {x : List Char} (hx : NumberText x) :
    ∃ c rest, x = c :: rest ∧ c.isDigit = true := by
  cases hx with
  | @decimal W F E hne hwhole =>
    obtain ⟨c, W', rfl⟩ := List.exists_cons_of_ne_nil hne
    exact ⟨c, W' ++ F ++ E, by simp, hwhole c List.mem_cons_self⟩
  | hex => exact ⟨'0', _, rfl, rfl⟩

/-! ## One lexeme at a time -/

theorem isBlank_of_isNameStart {c : Char} (h : isNameStart c = true) : isBlank c = false :=
  isBlank_of_isNameChar (by simp [isNameChar, h])

theorem isBlank_of_isDigit {c : Char} (h : c.isDigit = true) : isBlank c = false :=
  isBlank_of_isNameChar (by simp [isNameChar, h])

theorem step_of_isNameStart {c : Char} (hc : isNameStart c = true) (rest : List Char) :
    step c rest = (.token (wordKindBefore (c :: rest.take (countWhile isNameChar rest))
      (rest.drop (countWhile isNameChar rest))), countWhile isNameChar rest) := by
  have hslash : c ≠ '/' := by
    rintro rfl
    revert hc
    decide
  unfold step
  rw [if_neg (by simp [isBlank_of_isNameStart hc]), if_neg (by simpa using hslash), if_pos hc]

theorem step_of_isDigit {c : Char} (hc : c.isDigit = true) (rest : List Char) :
    step c rest = if numberLength (c :: rest) < malformedLength (c :: rest) then
      (.malformedNumber, malformedLength (c :: rest) - 1)
    else (.token .number, numberLength (c :: rest) - 1) := by
  have hslash : c ≠ '/' := by
    rintro rfl
    revert hc
    decide
  unfold step
  rw [if_neg (by simp [isBlank_of_isDigit hc]), if_neg (by simpa using hslash),
    if_neg (by simp [isNameStart_of_isDigit hc]), if_pos hc]

/-- A word followed by a character that ends it is read back as one word. -/
theorem lexemes_word_append {c : Char} {w Z : List Char} (hc : isNameStart c = true)
    (hw : ∀ x ∈ w, isNameChar x = true) (hZ : StopsWord Z) :
    lexemes (c :: w ++ Z) = (wordKindBefore (c :: w) Z, c :: w) :: lexemes Z := by
  have hcount : countWhile isNameChar (w ++ Z) = w.length :=
    countWhile_append_stop hw fun z hz => (endsWord_facts (hZ z hz)).1
  rw [List.cons_append, lexemes_of_token (step_of_isNameStart hc (w ++ Z)), hcount,
    List.take_left, List.drop_left]

/-- A number followed by a character that ends it is read back as that number. -/
theorem lexemes_number_append {x Z : List Char} (hx : NumberText x) (hZ : StopsWord Z) :
    lexemes (x ++ Z) = (.number, x) :: lexemes Z := by
  obtain ⟨hnum, hmal⟩ := numberLength_append_stop hx hZ
  obtain ⟨c, rest, rfl, hc⟩ := hx.head
  have hstep : step c (rest ++ Z) = (.token .number, rest.length) := by
    rw [step_of_isDigit hc, ← List.cons_append, hnum, hmal]
    simp
  rw [List.cons_append, lexemes_of_token hstep, List.take_left, List.drop_left]

/-- A closed quoted text ends at its closing quote whatever follows it. -/
theorem quotedLength_append_of_closed {cs : List Char} {n : Nat} (h : quotedLength cs = (n, true))
    (Z : List Char) : quotedLength (cs ++ Z) = (n, true) := by
  fun_induction quotedLength cs generalizing n with
  | case1 => simp at h
  | case2 rest =>
    obtain ⟨rfl, -⟩ := Prod.mk.inj h
    rfl
  | case3 c cs hc => simp at h
  | case4 c cs hc m closed hrec ih =>
    obtain ⟨rfl, rfl⟩ := Prod.mk.inj h
    rw [List.cons_append, List.cons_append, quotedLength.eq_3, if_neg hc, ih hrec]
  | case5 => simp at h
  | case6 c cs hquote hesc hlast m closed hrec ih =>
    obtain ⟨rfl, rfl⟩ := Prod.mk.inj h
    rw [List.cons_append, quotedLength_cons_plain hquote (ne_backslash_of_not_escape hesc hlast),
      ih hrec]

theorem step_quote (rest : List Char) :
    step '"' rest = (if (quotedLength rest).2 then .token .string else .unterminatedString,
      (quotedLength rest).1) := by
  unfold step
  rw [if_neg (by decide), if_neg (by decide), if_neg (by decide), if_neg (by decide),
    if_pos (by decide)]

/-- A quoted text is read back as itself whatever follows it. -/
theorem lexemes_string_append {body : List Char} (h : quotedLength body = (body.length, true))
    (Z : List Char) : lexemes ('"' :: body ++ Z) = (.string, '"' :: body) :: lexemes Z := by
  have hstep : step '"' (body ++ Z) = (.token .string, body.length) := by
    rw [step_quote, quotedLength_append_of_closed h]
    rfl
  rw [List.cons_append, lexemes_of_token hstep, List.take_left, List.drop_left]

theorem step_comma (rest : List Char) : step ',' rest = (.token .comma, 0) := by
  unfold step
  rw [if_neg (by decide), if_neg (by decide), if_neg (by decide), if_neg (by decide),
    if_neg (by decide)]
  simp [punctuation, punctuators, List.find?, List.isPrefixOf]

/-- A comma is read back alone whatever follows it. -/
theorem lexemes_comma (Z : List Char) : lexemes (',' :: Z) = (.comma, [',']) :: lexemes Z := by
  rw [lexemes_of_token (step_comma Z)]
  rfl

/-- A blank before a character that is none is skipped. -/
theorem lexemes_blank {Z : List Char} (hZ : ∀ z ∈ Z.head?, isBlank z = false) :
    lexemes (' ' :: Z) = lexemes Z := by
  rw [lexemes_of_skip (step_blank (by decide) Z) (by simp), countWhile_eq_zero hZ, List.drop_zero]

/-! ## Runs of punctuation -/

/-- The punctuators that glue to each other when written side by side: every entry of the table
but the comma, and `/=`. -/
def gluedTexts : List (List Char) :=
  (punctuators.map Prod.fst).filter (· != [',']) ++ [['/', '=']]

/-- The characters of those punctuators. -/
def isGlueChar (c : Char) : Bool := gluedTexts.any (·.contains c)

theorem mem_gluedTexts {p : List Char} {k : TokenKind} (h : (p, k) ∈ punctuators)
    (hp : p ≠ [',']) : p ∈ gluedTexts := by
  simp only [gluedTexts, List.mem_append, List.mem_filter, List.mem_map]
  exact .inl ⟨⟨(p, k), h, rfl⟩, by simpa using hp⟩

theorem slashEqual_mem_gluedTexts : ['/', '='] ∈ gluedTexts := by decide

/-- Every glued punctuator but `/=` is an entry of the table. -/
theorem punctuator_of_mem_gluedTexts {p : List Char} (hp : p ∈ gluedTexts) (hne : p ≠ ['/', '=']) :
    ∃ k, (p, k) ∈ punctuators := by
  simp only [gluedTexts, List.mem_append, List.mem_filter, List.mem_map, List.mem_singleton] at hp
  rcases hp with ⟨⟨⟨p', k⟩, hmem, rfl⟩, -⟩ | rfl
  · exact ⟨k, hmem⟩
  · exact absurd rfl hne

theorem isGlueChar_of_mem {p : List Char} (hp : p ∈ gluedTexts) {c : Char} (hc : c ∈ p) :
    isGlueChar c = true :=
  List.any_eq_true.2 ⟨p, hp, by simpa using hc⟩

/-- A glue character is no blank, no name character, no quote, no comma and no dot. -/
theorem isGlueChar_facts {c : Char} (h : isGlueChar c = true) :
    isBlank c = false ∧ isNameChar c = false ∧ c ≠ '"' ∧ c ≠ ',' ∧ c ≠ '.' := by
  have hall : gluedTexts.all (fun p => p.all fun c =>
      !isBlank c && !isNameChar c && c != '"' && c != ',' && c != '.') = true := by
    decide
  obtain ⟨p, hp, hcp⟩ := List.any_eq_true.1 h
  have hc := List.all_eq_true.1 (List.all_eq_true.1 hall p hp) c (by simpa using hcp)
  simpa only [Bool.and_eq_true, Bool.not_eq_true', bne_iff_ne, ne_eq, and_assoc] using hc

/-- Every proper end of a glued punctuator is one: `<<=` ends in `<=` and `=`, `::` in `:`. -/
theorem drop_mem_gluedTexts {p : List Char} (hp : p ∈ gluedTexts) {n : Nat} (hn : n < p.length) :
    p.drop n ∈ gluedTexts := by
  have hall : gluedTexts.all (fun p => (List.range p.length).all fun n =>
      gluedTexts.contains (p.drop n)) = true := by
    decide
  simpa using List.all_eq_true.1 (List.all_eq_true.1 hall p hp) n (List.mem_range.2 hn)

theorem gluedTexts_nonempty {p : List Char} (hp : p ∈ gluedTexts) : p ≠ [] := by
  have hall : gluedTexts.all (fun p => !p.isEmpty) = true := by decide
  simpa using List.all_eq_true.1 hall p hp

/-- The only glued punctuator that starts with a slash is `/=`. -/
theorem eq_slashEqual_of_mem_gluedTexts {p : List Char} (hp : p ∈ gluedTexts)
    (hslash : p.head? = some '/') : p = ['/', '='] := by
  have hall : gluedTexts.all (fun p => p.head? != some '/' || p == ['/', '=']) = true := by decide
  have h := List.all_eq_true.1 hall p hp
  simp only [Bool.or_eq_true, bne_iff_ne, ne_eq, beq_iff_eq] at h
  exact h.resolve_left (not_not.2 hslash)

/-- Texts made of glued punctuators written one after another. -/
inductive Glued : List Char → Prop
  | nil : Glued []
  | cons {p rest : List Char} (hp : p ∈ gluedTexts) (hrest : Glued rest) : Glued (p ++ rest)

theorem Glued.drop {R : List Char} (hR : Glued R) (n : Nat) : Glued (R.drop n) := by
  induction hR generalizing n with
  | nil => simpa using Glued.nil
  | @cons p rest hp hrest ih =>
    -- a cut inside the first punctuator leaves one of its ends
    rw [List.drop_append]
    by_cases hn : n < p.length
    · rw [Nat.sub_eq_zero_of_le (Nat.le_of_lt hn), List.drop_zero]
      exact .cons (drop_mem_gluedTexts hp hn) hrest
    · rw [List.drop_eq_nil_of_le (by omega), List.nil_append]
      exact ih _

theorem Glued.isGlueChar {R : List Char} (hR : Glued R) : ∀ c ∈ R, isGlueChar c = true := by
  induction hR with
  | nil => simp
  | cons hp hrest ih =>
    intro c hc
    rcases List.mem_append.1 hc with hc | hc
    · exact isGlueChar_of_mem hp hc
    · exact ih c hc

theorem Glued.append {R S : List Char} (hR : Glued R) (hS : Glued S) : Glued (R ++ S) := by
  induction hR with
  | nil => simpa using hS
  | cons hp hrest ih =>
    rw [List.append_assoc]
    exact .cons hp ih

/-- A slash in a run is the start of `/=`. -/
theorem Glued.slash {R : List Char} (h : Glued ('/' :: R)) : ∃ S, R = '=' :: S ∧ Glued S := by
  generalize hR : '/' :: R = T at h
  cases h with
  | nil => cases hR
  | @cons p rest hp hrest =>
    obtain ⟨c, p', rfl⟩ := List.exists_cons_of_ne_nil (gluedTexts_nonempty hp)
    obtain ⟨rfl, hR⟩ := List.cons.inj hR
    have hslash := eq_slashEqual_of_mem_gluedTexts hp rfl
    obtain ⟨-, rfl⟩ := List.cons.inj hslash
    exact ⟨rest, by simpa using hR, hrest⟩

/-- A text of glue characters that starts a run followed by no glue character lies inside the
run. -/
theorem prefix_of_prefix_append {q R Z : List Char} (h : q <+: R ++ Z)
    (hq : ∀ c ∈ q, isGlueChar c = true) (hZ : ∀ z ∈ Z.head?, isGlueChar z = false) : q <+: R := by
  induction q generalizing R with
  | nil => exact List.nil_prefix
  | cons a q ih =>
    cases R with
    | nil =>
      -- the first character of `q` would start `Z`
      obtain ⟨t, ht⟩ := h
      have ha := hZ a (by rw [List.nil_append] at ht; rw [← ht]; rfl)
      rw [hq a List.mem_cons_self] at ha
      cases ha
    | cons r R =>
      obtain ⟨rfl, h'⟩ := List.cons_prefix_cons.1 h
      exact List.cons_prefix_cons.2 ⟨rfl, ih h' fun c hc => hq c (List.mem_cons_of_mem _ hc)⟩

/-- Punctuation at a run that does not start with a slash reads an entry of the table that lies
inside the run. -/
theorem punctuation_glued {c : Char} {R Z : List Char} (hR : Glued (c :: R)) (hc : c ≠ '/')
    (hZ : ∀ z ∈ Z.head?, isGlueChar z = false) :
    ∃ q k, punctuation (c :: R ++ Z) = some (k, q.length) ∧ (q, k) ∈ punctuators ∧
      q ∈ gluedTexts ∧ q <+: c :: R := by
  -- the run's first punctuator is an entry of the table that starts the text
  have hfirst : ∃ p k, (p, k) ∈ punctuators ∧ p <+: c :: R ++ Z := by
    generalize hT : c :: R = T at hR
    cases hR with
    | nil => cases hT
    | @cons p rest hp hrest =>
      have hne : p ≠ ['/', '='] := by
        rintro rfl
        exact hc (List.cons.inj hT).1
      obtain ⟨k, hk⟩ := punctuator_of_mem_gluedTexts hp hne
      exact ⟨p, k, hk, by rw [List.append_assoc]; exact List.prefix_append _ _⟩
  obtain ⟨p, k₀, hk₀, hp⟩ := hfirst
  cases hfind : punctuators.find? (fun e => e.1.isPrefixOf (c :: R ++ Z)) with
  | none =>
    have := List.find?_eq_none.1 hfind (p, k₀) hk₀
    simp only [List.isPrefixOf_iff_prefix] at this
    exact absurd hp this
  | some e =>
    obtain ⟨q, k⟩ := e
    have hmem := List.mem_of_find?_eq_some hfind
    have hpre : q <+: c :: R ++ Z := List.isPrefixOf_iff_prefix.1 (by simpa using List.find?_some hfind)
    -- the entry found starts with the run's first character, so it is no comma
    obtain ⟨c', q', rfl⟩ := List.exists_cons_of_ne_nil (punctuators_nonempty _ hmem)
    obtain ⟨rfl, -⟩ := List.cons_prefix_cons.1 hpre
    have hglue := hR.isGlueChar c' List.mem_cons_self
    have hglued : c' :: q' ∈ gluedTexts := by
      refine mem_gluedTexts hmem fun hcomma => (isGlueChar_facts hglue).2.2.2.1 ?_
      exact (List.cons.inj hcomma).1
    refine ⟨c' :: q', k, by rw [punctuation, hfind]; rfl, hmem, hglued, ?_⟩
    exact prefix_of_prefix_append hpre (fun x hx => isGlueChar_of_mem hglued hx) hZ

theorem step_of_isGlueChar {c : Char} (hc : isGlueChar c = true) (hslash : c ≠ '/')
    {rest : List Char} {k : TokenKind} {n : Nat} (hp : punctuation (c :: rest) = some (k, n)) :
    step c rest = (.token k, n - 1) := by
  obtain ⟨hb, hn, hq, -, -⟩ := isGlueChar_facts hc
  simp only [isNameChar, Bool.or_eq_false_iff] at hn
  unfold step
  rw [if_neg (by simp [hb]), if_neg (by simpa using hslash), if_neg (by simp [hn.1]),
    if_neg (by simp [hn.2]), if_neg (by simpa using hq), hp]

theorem step_slashEqual (rest : List Char) : step '/' ('=' :: rest) = (.token .slashEqual, 1) := by
  unfold step
  rw [if_neg (by decide), if_pos (by decide)]
  rfl

/-- A run of glued punctuators followed by no glue character is read back as entries of the
table and `/=` that spell the run. -/
theorem lexemes_glued {R Z : List Char} (hR : Glued R) (hZ : ∀ z ∈ Z.head?, isGlueChar z = false) :
    ∃ P, lexemes (R ++ Z) = P ++ lexemes Z ∧ (P.map Prod.snd).flatten = R ∧
      ∀ v ∈ P, Lexeme v ∧ v.2 ∈ gluedTexts := by
  -- on the length of the run: each step reads a punctuator and leaves a shorter run
  induction hlen : R.length using Nat.strong_induction_on generalizing R with
  | _ n ih =>
  cases R with
  | nil => exact ⟨[], by simp, by simp, by simp⟩
  | cons c R =>
    by_cases hc : c = '/'
    · subst hc
      obtain ⟨S, rfl, hS⟩ := hR.slash
      obtain ⟨P, hP, hflat, hlex⟩ := ih S.length (by simp at hlen; omega) hS rfl
      refine ⟨(.slashEqual, ['/', '=']) :: P, ?_, by simp [hflat], ?_⟩
      · rw [List.cons_append, List.cons_append, lexemes_of_token (step_slashEqual _)]
        simp [hP]
      · intro v hv
        rcases List.mem_cons.1 hv with rfl | hv
        · exact ⟨.slashEqual, slashEqual_mem_gluedTexts⟩
        · exact hlex v hv
    · obtain ⟨q, k, hpunct, hmem, hglued, hpre⟩ := punctuation_glued hR hc hZ
      obtain ⟨c', q', rfl⟩ := List.exists_cons_of_ne_nil (gluedTexts_nonempty hglued)
      obtain ⟨rfl, t, rfl⟩ := List.cons_prefix_cons.1 hpre
      have hstep : step c' (q' ++ t ++ Z) = (.token k, q'.length) := by
        rw [step_of_isGlueChar (hR.isGlueChar c' List.mem_cons_self) hc
          (by rw [← List.cons_append]; exact hpunct)]
        simp
      have hrest : Glued t := by simpa using hR.drop (q'.length + 1)
      obtain ⟨P, hP, hflat, hlex⟩ := ih t.length (by simp at hlen ⊢; omega) hrest rfl
      refine ⟨(k, c' :: q') :: P, ?_, ?_, ?_⟩
      · rw [List.cons_append, lexemes_of_token hstep, List.append_assoc, List.take_left,
          List.drop_left, hP]
        rfl
      · rw [List.map_cons, List.flatten_cons, hflat, List.cons_append]
      · intro v hv
        rcases List.mem_cons.1 hv with rfl | hv
        · exact ⟨.punct hmem, hglued⟩
        · exact hlex v hv

end TypeReflection.Scan
