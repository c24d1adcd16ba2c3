import Mathlib.Data.List.Find
import TypeReflection.Proofs.Token.Positions

/-!
# Scanning a text joined to another

The scanner reads the longest piece at each point, so what follows a text can change how its
last pieces are read: a name runs on into the letters after it, a number into the digits, and a
comment or a quoted text that is not closed runs on to the end. A *separator* (a blank, `;` or
`}`) stops every reading: whatever comes after it, a piece read before a separator is read the
same way (`step_append`). So a text whose scan ends on a separator (`Scan.Settled`: its last
piece is a run of blanks, or a `;` or `}` alone) is scanned, when more text follows it, into its
own tokens and then those of the rest (`scanFrom_append`).

Each reading of the scanner gets a lemma of its own: a count, a block comment, a quoted text, an
exponent, a number, a malformed number and a punctuator are each read the same when a separator
lies after them in the text (`countWhile_append`, `quotedLength_append`, `numberLength_append`
and the others), and `step_append` puts them together.
-/

set_option autoImplicit false

namespace TypeReflection

namespace Scan

/-- The characters at which every reading of the scanner stops: blanks, `;` and `}`. -/
def isSeparator (c : Char) : Bool := isBlank c || c == ';' || c == '}'

/-- A separator is none of the characters that continue a name, a number or a punctuator. -/
theorem isSeparator_cases {c : Char} (h : isSeparator c = true) :
    c = ' ' ∨ c = '\t' ∨ c = '\r' ∨ c = '\n' ∨ c = '\x0c' ∨ c = '\x0b' ∨ c = ';' ∨ c = '}' := by
  simp only [isSeparator, isBlank, Bool.or_eq_true, beq_iff_eq, or_assoc] at h
  exact h

theorem isSeparator_facts {c : Char} (h : isSeparator c = true) :
    c.isDigit = false ∧ isNameChar c = false ∧ isHexDigit c = false ∧ c ≠ '.' ∧ c ≠ 'e' ∧
      c ≠ 'E' ∧ c ≠ '+' ∧ c ≠ '-' ∧ c ≠ 'x' ∧ c ≠ 'X' ∧ c ≠ '\\' := by
  rcases isSeparator_cases h with rfl | rfl | rfl | rfl | rfl | rfl | rfl | rfl <;> decide

theorem isSeparator_digit {c : Char} (h : isSeparator c = true) : c.isDigit = false :=
  (isSeparator_facts h).1

/-! ## Readings that stop inside a text -/

theorem countWhile_le_length (p : Char → Bool) (cs : List Char) : countWhile p cs ≤ cs.length := by
  induction cs with
  | nil => simp [countWhile]
  | cons c cs ih =>
    simp only [countWhile, List.length_cons]
    split <;> omega

/-- A count that stops inside a text stops at the same place whatever follows the text. -/
theorem countWhile_append {p : Char → Bool} {cs : List Char} (h : countWhile p cs < cs.length)
    (ys : List Char) : countWhile p (cs ++ ys) = countWhile p cs := by
  induction cs with
  | nil => simp at h
  | cons c cs ih =>
    simp only [countWhile, List.cons_append, List.length_cons] at h ⊢
    split
    · next hc =>
      rw [if_pos hc] at h
      rw [ih (by omega)]
    · rfl

theorem countWhile_lt_length {p : Char → Bool} {cs : List Char} {x : Char} (hx : x ∈ cs)
    (hp : p x = false) : countWhile p cs < cs.length := by
  induction cs with
  | nil => simp at hx
  | cons c cs ih =>
    simp only [countWhile, List.length_cons]
    rcases List.mem_cons.1 hx with rfl | hx
    · simp [hp]
    · split
      · have := ih hx
        omega
      · omega

/-- A character at which a count stops lies past what it counted. -/
theorem mem_drop_countWhile {p : Char → Bool} {cs : List Char} {x : Char} (hx : x ∈ cs)
    (hp : p x = false) : x ∈ cs.drop (countWhile p cs) := by
  induction cs with
  | nil => simp at hx
  | cons c cs ih =>
    simp only [countWhile]
    rcases List.mem_cons.1 hx with rfl | hx
    · simp [hp]
    · split
      · simpa using ih hx
      · simp [hx]

/-- Some separator lies in the text. -/
def HasSeparator (cs : List Char) : Prop := ∃ c ∈ cs, isSeparator c = true

theorem HasSeparator.ne_nil {cs : List Char} (h : HasSeparator cs) : cs ≠ [] := by
  rintro rfl
  obtain ⟨c, hc, -⟩ := h
  simp at hc

theorem HasSeparator.append {cs : List Char} (h : HasSeparator cs) (ys : List Char) :
    HasSeparator (cs ++ ys) := by
  obtain ⟨c, hc, hs⟩ := h
  exact ⟨c, List.mem_append_left ys hc, hs⟩

/-- A separator is not counted by a count of characters that are no separators. -/
theorem HasSeparator.countWhile_append {p : Char → Bool} {cs : List Char} (h : HasSeparator cs)
    (hp : ∀ c, isSeparator c = true → p c = false) (ys : List Char) :
    countWhile p (cs ++ ys) = countWhile p cs := by
  obtain ⟨c, hc, hs⟩ := h
  exact Scan.countWhile_append (countWhile_lt_length hc (hp c hs)) ys

theorem HasSeparator.drop_countWhile {p : Char → Bool} {cs : List Char} (h : HasSeparator cs)
    (hp : ∀ c, isSeparator c = true → p c = false) :
    HasSeparator (cs.drop (countWhile p cs)) := by
  obtain ⟨c, hc, hs⟩ := h
  exact ⟨c, mem_drop_countWhile hc (hp c hs), hs⟩

/-- Digits stop no later than a separator, so text joined after it adds none. -/
theorem HasSeparator.countDigits_append {cs : List Char} (h : HasSeparator cs) (ys : List Char) :
    countWhile Char.isDigit (cs ++ ys) = countWhile Char.isDigit cs :=
  h.countWhile_append (fun _ hc => isSeparator_digit hc) ys

/-- The separator lies past the digits at the front. -/
theorem HasSeparator.drop_digits {cs : List Char} (h : HasSeparator cs) :
    HasSeparator (cs.drop (countWhile Char.isDigit cs)) :=
  h.drop_countWhile fun _ hc => isSeparator_digit hc

theorem HasSeparator.tail {c : Char} {cs : List Char} (h : HasSeparator (c :: cs))
    (hc : isSeparator c = false) : HasSeparator cs := by
  obtain ⟨x, hx, hs⟩ := h
  rcases List.mem_cons.1 hx with rfl | hx
  · rw [hc] at hs
    cases hs
  · exact ⟨x, hx, hs⟩

/-- What is dropped before a separator is shorter than the text. -/
theorem HasSeparator.le_length_of_drop {cs : List Char} {n : Nat} (h : HasSeparator (cs.drop n)) :
    n ≤ cs.length := by
  refine Nat.le_of_not_lt fun hlt => h.ne_nil ?_
  exact List.drop_eq_nil_of_le (Nat.le_of_lt hlt)

/-- What is dropped before a separator stops short of the end of the text. -/
theorem HasSeparator.lt_length_of_drop {cs : List Char} {n : Nat} (h : HasSeparator (cs.drop n)) :
    n < cs.length := by
  refine Nat.lt_of_not_le fun hle => h.ne_nil ?_
  exact List.drop_eq_nil_of_le hle

theorem HasSeparator.of_drop {cs : List Char} {n : Nat} (h : HasSeparator (cs.drop n)) :
    HasSeparator cs := by
  obtain ⟨c, hc, hs⟩ := h
  exact ⟨c, List.mem_of_mem_drop hc, hs⟩

/-! ## The readings of one step -/

/-- A block comment closed inside a text is closed at the same place whatever follows. -/
theorem commentTailLength_append {cs : List Char} (h : commentTailLength cs < cs.length)
    (ys : List Char) : commentTailLength (cs ++ ys) = commentTailLength cs := by
  fun_induction commentTailLength cs with
  | case1 => simp at h
  | case2 tail => simp [commentTailLength]
  | case3 c cs hne ih =>
    simp only [List.length_cons] at h
    obtain ⟨d, ds, rfl⟩ := List.exists_cons_of_ne_nil fun hnil : cs = [] => by
      simp [hnil, commentTailLength] at h
    have hne' : ∀ tail, c = '*' → d :: ds ++ ys = '/' :: tail → False :=
      fun _ hc hd => hne ds hc (by rw [(List.cons.inj hd).1])
    rw [List.cons_append, commentTailLength.eq_3 _ _ hne', ih (by omega)]

/-- A quoted text after which a separator remains ends at the same place whatever follows: it was
closed, or cut by a backslash before a line break, inside the text. -/
theorem quotedLength_append {cs : List Char} (h : HasSeparator (cs.drop (quotedLength cs).1))
    (ys : List Char) : quotedLength (cs ++ ys) = quotedLength cs := by
  fun_induction quotedLength cs with
  | case1 => exact absurd h (fun h' => h'.ne_nil rfl)
  | case2 => simp [quotedLength]
  | case3 c cs hc => simp [quotedLength, hc]
  | case4 c cs hc n closed hrest ih =>
    rw [List.drop_succ_cons, List.drop_succ_cons] at h
    rw [List.cons_append, List.cons_append, quotedLength.eq_3, if_neg hc, ih (by rwa [hrest]), hrest]
  | case5 =>
    -- a backslash that ends the text is no separator
    obtain ⟨x, hx, hs⟩ := h
    simp only [List.drop_zero, List.mem_singleton] at hx
    subst hx
    simp [isSeparator, isBlank] at hs
  | case6 c cs hquote hesc hlast n closed hrest ih =>
    rw [List.drop_succ_cons] at h
    rw [List.cons_append, quotedLength_cons_plain hquote (ne_backslash_of_not_escape hesc hlast),
      ih (by rwa [hrest]), hrest]

/-- An exponent is read up to the first character that is no part of it, which comes no later than
a separator. -/
theorem exponentLength_append {cs : List Char} (h : HasSeparator cs) (ys : List Char) :
    exponentLength (cs ++ ys) = exponentLength cs := by
  obtain ⟨c, rest, rfl⟩ := List.exists_cons_of_ne_nil h.ne_nil
  unfold exponentLength
  simp only [List.cons_append]
  split
  · next he =>
    have hrest : HasSeparator rest := h.tail (by
      simp only [Bool.or_eq_true, beq_iff_eq] at he
      rcases he with rfl | rfl <;> decide)
    obtain ⟨s, tail, rfl⟩ := List.exists_cons_of_ne_nil hrest.ne_nil
    -- the sign is read from the same character, and the digits stop at the same separator
    by_cases hs : (s == '+' || s == '-') = true
    · have htail : HasSeparator tail := hrest.tail (by
        simp only [Bool.or_eq_true, beq_iff_eq] at hs
        rcases hs with rfl | rfl <;> decide)
      simp only [List.cons_append, hs, if_true, List.drop_succ_cons, List.drop_zero,
        htail.countDigits_append ys]
    · have hall : countWhile Char.isDigit (s :: (tail ++ ys)) = countWhile Char.isDigit (s :: tail) :=
        hrest.countDigits_append ys
      simp only [List.cons_append, hs, Bool.false_eq_true, if_false, List.drop_zero, hall]
  · rfl


theorem hexLength_append {cs : List Char} (h : HasSeparator cs) (ys : List Char) :
    hexLength (cs ++ ys) = hexLength cs := by
  by_cases hhex : ∃ x rest, cs = '0' :: x :: rest
  · obtain ⟨x, rest, rfl⟩ := hhex
    simp only [List.cons_append, hexLength]
    split
    · next hx =>
      have hrest : HasSeparator rest := (h.tail (by decide)).tail (by
        simp only [Bool.or_eq_true, beq_iff_eq] at hx
        rcases hx with rfl | rfl <;> decide)
      rw [hrest.countWhile_append (fun _ hc => (isSeparator_facts hc).2.2.1)]
    · rfl
  · -- no hexadecimal prefix here, and none after what follows is joined: the text holds a
    -- separator, so it is not a lone `0`
    simp only [not_exists] at hhex
    rw [hexLength.eq_2 _ fun x rest hcs => hhex x rest hcs]
    refine hexLength.eq_2 _ fun x rest hcs => ?_
    obtain ⟨c, cs', rfl⟩ := List.exists_cons_of_ne_nil h.ne_nil
    cases cs' with
    | nil =>
      obtain ⟨d, hd, hs⟩ := h
      simp only [List.mem_singleton] at hd
      subst hd
      simp only [List.cons_append, List.nil_append, List.cons.injEq] at hcs
      rw [hcs.1] at hs
      exact absurd hs (by decide)
    | cons d ds =>
      simp only [List.cons_append, List.cons.injEq] at hcs
      exact hhex d ds (by rw [hcs.1])


/-- A number in a text that holds a separator is read the same whatever follows the text. -/
theorem numberLength_append {cs : List Char} (h : HasSeparator cs) (ys : List Char) :
    numberLength (cs ++ ys) = numberLength cs := by
  unfold numberLength
  dsimp only
  rw [h.countDigits_append ys, List.drop_append_of_le_length (countWhile_le_length _ _), hexLength_append h]
  have hrest := h.drop_digits
  generalize cs.drop (countWhile Char.isDigit cs) = r at hrest ⊢
  obtain ⟨d, ds, rfl⟩ := List.exists_cons_of_ne_nil hrest.ne_nil
  by_cases hd : d = '.'
  · subst hd
    have hds : HasSeparator ds := hrest.tail (by decide)
    have hfrac := hds.drop_digits
    simp only [List.cons_append, hds.countDigits_append ys,
      List.drop_append_of_le_length (countWhile_le_length _ ds), exponentLength_append hfrac,
      exponentLength_append hds]
  · -- neither text has a dot there, and the exponent stops at the same separator
    rw [exponentLength_append hrest]
    split
    · next afterDot heq =>
      simp only [List.cons_append, List.cons.injEq] at heq
      exact absurd heq.1 hd
    · split
      · next afterDot heq =>
        simp only [List.cons.injEq] at heq
        exact absurd heq.1 hd
      · rfl


theorem exponentLength_of_not {c : Char} (he : ¬(c == 'e' || c == 'E') = true)
    (rest : List Char) : exponentLength (c :: rest) = 0 := by
  cases rest <;> simp [exponentLength, he]

/-- An exponent holds no separator, so a separator after its start lies past it. -/
theorem HasSeparator.drop_exponentLength {cs : List Char} (h : HasSeparator cs) :
    HasSeparator (cs.drop (exponentLength cs)) := by
  obtain ⟨c, rest, rfl⟩ := List.exists_cons_of_ne_nil h.ne_nil
  by_cases he : (c == 'e' || c == 'E') = true
  · have hrest : HasSeparator rest := h.tail (by
      simp only [Bool.or_eq_true, beq_iff_eq] at he
      rcases he with rfl | rfl <;> decide)
    obtain ⟨s, tail, rfl⟩ := List.exists_cons_of_ne_nil hrest.ne_nil
    have hsign : HasSeparator ((s :: tail).drop (if (s == '+' || s == '-') = true then 1 else 0)) := by
      split
      · next hs =>
        exact hrest.tail (by
          simp only [Bool.or_eq_true, beq_iff_eq] at hs
          rcases hs with rfl | rfl <;> decide)
      · exact hrest
    rw [exponentLength.eq_1, if_pos he]
    dsimp only
    generalize (if (s == '+' || s == '-') = true then 1 else 0) = sign at hsign ⊢
    split
    · rw [List.drop_zero]
      exact h
    · rw [show 1 + sign + countWhile Char.isDigit ((s :: tail).drop sign) =
          sign + countWhile Char.isDigit ((s :: tail).drop sign) + 1 by omega,
        List.drop_succ_cons, ← List.drop_drop]
      exact hsign.drop_countWhile fun _ hc => isSeparator_digit hc
  · rw [exponentLength_of_not he]
    exact h

/-- So is a malformed number. -/
theorem malformedLength_append {cs : List Char} (h : HasSeparator cs) (ys : List Char) :
    malformedLength (cs ++ ys) = malformedLength cs := by
  unfold malformedLength
  dsimp only
  rw [h.countDigits_append ys, List.drop_append_of_le_length (countWhile_le_length _ _)]
  have hrest := h.drop_digits
  generalize cs.drop (countWhile Char.isDigit cs) = r at hrest ⊢
  obtain ⟨d, ds, rfl⟩ := List.exists_cons_of_ne_nil hrest.ne_nil
  by_cases hd : d = '.'
  · subst hd
    have hds : HasSeparator ds := hrest.tail (by decide)
    have hfrac := hds.drop_digits
    have hexp := hfrac.drop_exponentLength
    simp only [List.cons_append, hds.countDigits_append ys,
      List.drop_append_of_le_length (countWhile_le_length _ ds), exponentLength_append hfrac,
      List.drop_append_of_le_length hexp.le_length_of_drop]
    generalize (ds.drop (countWhile Char.isDigit ds)).drop
      (exponentLength (ds.drop (countWhile Char.isDigit ds))) = x at hexp ⊢
    obtain ⟨e, es, rfl⟩ := List.exists_cons_of_ne_nil hexp.ne_nil
    by_cases he : e = '.'
    · subst he
      simp only [List.cons_append, (hexp.tail (by decide)).countDigits_append ys]
    · simp [he]
  · have hexp := hrest.drop_exponentLength
    simp [hd]
    rw [show exponentLength (d :: (ds ++ ys)) = exponentLength (d :: ds) from
        exponentLength_append hrest ys,
      show (d :: (ds ++ ys)).drop (exponentLength (d :: ds)) =
        (d :: ds).drop (exponentLength (d :: ds)) ++ ys from
        List.drop_append_of_le_length hexp.le_length_of_drop]
    generalize (d :: ds).drop (exponentLength (d :: ds)) = x at hexp ⊢
    obtain ⟨e, es, rfl⟩ := List.exists_cons_of_ne_nil hexp.ne_nil
    by_cases he : e = '.'
    · subst he
      simp only [List.cons_append, (hexp.tail (by decide)).countDigits_append ys]
    · simp [he]


/-- A candidate without separators is a prefix of a text holding a separator exactly when it is a
prefix of the text with anything joined to it. -/
theorem isPrefixOf_append {l cs : List Char} (hl : ∀ c ∈ l, isSeparator c = false)
    (h : HasSeparator cs) (ys : List Char) : l.isPrefixOf (cs ++ ys) = l.isPrefixOf cs := by
  induction l generalizing cs with
  | nil => simp
  | cons a l ih =>
    obtain ⟨x, xs, rfl⟩ := List.exists_cons_of_ne_nil h.ne_nil
    rw [List.cons_append, List.isPrefixOf_cons_cons, List.isPrefixOf_cons_cons]
    by_cases hax : a = x
    · subst hax
      rw [ih (fun c hc => hl c (List.mem_cons_of_mem a hc)) (h.tail (hl a List.mem_cons_self))]
    · rw [beq_eq_false_iff_ne.2 hax, Bool.false_and, Bool.false_and]

/-- Every punctuator is a single character or holds no separator. -/
theorem punctuators_short_or_plain :
    ∀ p ∈ punctuators, p.1.length = 1 ∨ ∀ c ∈ p.1, isSeparator c = false := by
  -- one boolean run over the table: deciding the quantified form nests an instance per entry,
  -- which overflows the recursion limit once all of Mathlib is in scope
  have hall : punctuators.all (fun p => p.1.length == 1 || p.1.all (!isSeparator ·)) = true := by
    decide
  intro p hp
  simpa using List.all_eq_true.1 hall p hp

theorem punctuation_append {cs : List Char} (h : HasSeparator cs) (ys : List Char) :
    punctuation (cs ++ ys) = punctuation cs := by
  unfold punctuation
  refine congrArg (Option.map _) (List.find?_congr fun p hp => ?_)
  rcases punctuators_short_or_plain p hp with hone | hplain
  · obtain ⟨a, ha⟩ := List.length_eq_one_iff.1 hone
    obtain ⟨x, xs, rfl⟩ := List.exists_cons_of_ne_nil h.ne_nil
    simp [ha, List.isPrefixOf_cons_cons]
  · exact isPrefixOf_append hplain h ys

theorem wordKindBefore_append (word : List Char) {after : List Char} (h : after ≠ [])
    (ys : List Char) : wordKindBefore word (after ++ ys) = wordKindBefore word after := by
  obtain ⟨c, cs, rfl⟩ := List.exists_cons_of_ne_nil h
  rfl


/-- A piece after which a separator remains is read the same whatever follows the text. -/
theorem step_append {c : Char} {rest : List Char} (h : HasSeparator (rest.drop (step c rest).2))
    (ys : List Char) : step c (rest ++ ys) = step c rest := by
  have hrest : HasSeparator rest := h.of_drop
  unfold step at h ⊢
  by_cases hblank : isBlank c = true
  · simp only [if_pos hblank] at h ⊢
    rw [countWhile_append h.lt_length_of_drop]
  simp only [if_neg hblank] at h ⊢
  by_cases hslash : (c == '/') = true
  · simp only [if_pos hslash] at h ⊢
    obtain ⟨d, ds, rfl⟩ := List.exists_cons_of_ne_nil hrest.ne_nil
    by_cases h1 : d = '/'
    · subst h1
      have hline : HasSeparator (ds.drop (countWhile (· != '\n') ds)) := by
        simpa [Nat.add_comm 1] using h
      simp [countWhile_append hline.lt_length_of_drop]
    by_cases h2 : d = '*'
    · subst h2
      have hblock : HasSeparator (ds.drop (commentTailLength ds)) := by
        simpa [Nat.add_comm 1] using h
      simp [commentTailLength_append hblock.lt_length_of_drop]
    by_cases h3 : d = '='
    · subst h3
      rfl
    · simp [h1, h2, h3]
  simp only [if_neg hslash] at h ⊢
  by_cases hname : isNameStart c = true
  · simp only [if_pos hname] at h ⊢
    have hlt := h.lt_length_of_drop
    rw [countWhile_append hlt, List.take_append_of_le_length (Nat.le_of_lt hlt),
      List.drop_append_of_le_length (Nat.le_of_lt hlt), wordKindBefore_append _ h.ne_nil]
  simp only [if_neg hname] at h ⊢
  have hall : HasSeparator (c :: rest) := ⟨_, List.mem_cons_of_mem c hrest.choose_spec.1, hrest.choose_spec.2⟩
  by_cases hdigit : c.isDigit = true
  · simp only [if_pos hdigit] at h ⊢
    have hm : malformedLength (c :: (rest ++ ys)) = malformedLength (c :: rest) :=
      malformedLength_append hall ys
    have hn : numberLength (c :: (rest ++ ys)) = numberLength (c :: rest) :=
      numberLength_append hall ys
    simp only [hm, hn]
  simp only [if_neg hdigit] at h ⊢
  by_cases hquote : (c == '"') = true
  · simp only [if_pos hquote] at h ⊢
    rw [quotedLength_append h]
  simp only [if_neg hquote] at h ⊢
  have hp : punctuation (c :: (rest ++ ys)) = punctuation (c :: rest) := punctuation_append hall ys
  rw [hp]


/-! ## Texts whose scan ends on a separator -/

/-- Whether reading `cs` piece by piece ends on a separator: the last piece is a run of blanks
that lasts to the end, or a `;` or a `}` alone. -/
def endsOnSeparator (cs : List Char) : Bool :=
  match cs with
  | [] => false
  | c :: rest =>
    (isBlank c && rest.all isBlank) || ((c == ';' || c == '}') && rest.isEmpty) ||
      endsOnSeparator (rest.drop (step c rest).2)
termination_by cs.length
decreasing_by
  simp only [List.length_drop, List.length_cons]
  omega

/-- A text the scanner reads without any piece running past its end: it is empty, or its scan
ends on a separator. -/
def Settled (cs : List Char) : Prop := cs = [] ∨ endsOnSeparator cs = true

instance : DecidablePred Settled := fun cs => inferInstanceAs (Decidable (cs = [] ∨ _))

theorem hasSeparator_of_endsOnSeparator {cs : List Char} (h : endsOnSeparator cs = true) :
    HasSeparator cs := by
  fun_induction endsOnSeparator cs with
  | case1 => simp at h
  | case2 c rest ih =>
    simp only [Bool.or_eq_true, Bool.and_eq_true] at h
    rcases h with (⟨hb, -⟩ | ⟨hc, -⟩) | h
    · exact ⟨c, List.mem_cons_self, by simp [isSeparator, hb]⟩
    · refine ⟨c, List.mem_cons_self, ?_⟩
      simp only [beq_iff_eq] at hc
      rcases hc with rfl | rfl <;> decide
    · obtain ⟨x, hx, hs⟩ := ih h
      exact ⟨x, List.mem_cons_of_mem c (List.mem_of_mem_drop hx), hs⟩

theorem countWhile_append_of_all {p : Char → Bool} {cs : List Char} (h : ∀ x ∈ cs, p x = true)
    (ys : List Char) : countWhile p (cs ++ ys) = cs.length + countWhile p ys := by
  induction cs with
  | nil => simp
  | cons c cs ih =>
    simp only [List.cons_append, countWhile, h c List.mem_cons_self, if_true, List.length_cons,
      ih fun x hx => h x (List.mem_cons_of_mem c hx)]
    omega

theorem step_blank {c : Char} (h : isBlank c = true) (rest : List Char) :
    step c rest = (.gap, countWhile isBlank rest) := by
  simp [step, h]

/-- A run of blanks at the end of a text joins the blanks that follow it into one gap. -/
theorem scanFrom_blanks {c : Char} {bs : List Char} (hc : isBlank c = true)
    (hbs : ∀ x ∈ bs, isBlank x = true) (ys : List Char) (pos : Position) (found : TokenStream) :
    scanFrom (c :: bs ++ ys) pos found = scanFrom ys (pos.after (c :: bs)) found := by
  rw [List.cons_append, scanFrom]
  simp only [step_blank hc, countWhile_append_of_all hbs]
  cases ys with
  | nil => simp [scanFrom, countWhile]
  | cons y ys =>
    by_cases hy : isBlank y = true
    · conv_rhs => rw [scanFrom]
      simp only [step_blank hy, countWhile, hy, if_true]
      rw [List.drop_append, List.take_append, List.drop_eq_nil_of_le (by omega),
        List.take_of_length_le (by omega), Nat.add_sub_cancel_left, List.nil_append,
        List.drop_succ_cons, List.take_succ_cons, ← List.cons_append, after_append]
    · simp [countWhile, hy]


theorem step_semicolon (rest : List Char) : step ';' rest = (.token .semicolon, 0) := by
  simp [step, isBlank, isNameStart, isLatinLetter, punctuation, punctuators,
    List.isPrefixOf_cons_cons]

theorem step_rightBrace (rest : List Char) : step '}' rest = (.token .rightBrace, 0) := by
  simp [step, isBlank, isNameStart, isLatinLetter, punctuation, punctuators,
    List.isPrefixOf_cons_cons]

/-- A `;` or a `}` is read alone, whatever follows it. -/
theorem step_closer {c : Char} (hc : c = ';' ∨ c = '}') (rest : List Char) :
    step c rest = step c [] := by
  rcases hc with rfl | rfl
  · rw [step_semicolon, step_semicolon]
  · rw [step_rightBrace, step_rightBrace]

theorem scanFrom_append_of_endsOnSeparator {cs : List Char} (h : endsOnSeparator cs = true)
    (pos : Position) (found : TokenStream) : ∃ found' : TokenStream,
      scanFrom cs pos found =
        { found' with tokens := found'.tokens.push (Token.endOfInput ((pos.after cs).spanOver [])) } ∧
      ∀ ys, scanFrom (cs ++ ys) pos found = scanFrom ys (pos.after cs) found' := by
  fun_induction scanFrom cs pos found with
  | case1 pos found => simp [endsOnSeparator] at h
  | case2 pos found c rest piece more hstep taken span found₁ ih =>
    rw [endsOnSeparator] at h
    simp only [Bool.or_eq_true, Bool.and_eq_true, List.all_eq_true] at h
    rw [hstep] at h
    have hafter : (pos.after taken).after (rest.drop more) = pos.after (c :: rest) := by
      rw [← after_append, List.cons_append, List.take_append_drop]
    rcases h with (⟨hb, hbs⟩ | ⟨hc, hnil⟩) | hrest
    · -- the text ends in a run of blanks, read as one gap
      have hgap : step c rest = (.gap, rest.length) := by
        rw [step_blank hb, ← List.append_nil rest, countWhile_append_of_all hbs, List.append_nil]
        rfl
      rw [hstep, Prod.mk.injEq] at hgap
      obtain ⟨rfl, rfl⟩ := hgap
      refine ⟨found, ?_, fun ys => scanFrom_blanks hb hbs ys pos found⟩
      simp [scanFrom, found₁, taken, List.take_length]
    · -- a `;` or a `}` alone
      rw [List.isEmpty_iff] at hnil
      subst hnil
      simp only [beq_iff_eq] at hc
      have hmore : more = 0 := by
        rcases hc with rfl | rfl
        · rw [step_semicolon, Prod.mk.injEq] at hstep
          exact hstep.2.symm
        · rw [step_rightBrace, Prod.mk.injEq] at hstep
          exact hstep.2.symm
      subst hmore
      refine ⟨found₁, ?_, fun ys => ?_⟩
      · simp [scanFrom, taken]
      · rw [List.singleton_append, scanFrom, step_closer hc, hstep]
        simp [taken, span, found₁]
    · -- the rest of the text ends on a separator: the piece is read alike, and so is the rest
      obtain ⟨found', hown, hjoined⟩ := ih hrest
      refine ⟨found', by rw [hown, hafter], fun ys => ?_⟩
      have hsep := hasSeparator_of_endsOnSeparator hrest
      have hle := Nat.le_of_lt hsep.lt_length_of_drop
      rw [← hstep] at hsep
      rw [List.cons_append, scanFrom, step_append hsep, hstep]
      simp only [List.take_append_of_le_length hle, List.drop_append_of_le_length hle]
      rw [← hafter]
      exact hjoined ys

/-- A settled text is scanned, when more text follows, into what it finds on its own, less the
end of input, and then the scan of what follows from where it ends. -/
theorem scanFrom_append {cs : List Char} (h : Settled cs) (pos : Position) (found : TokenStream) :
    ∃ found' : TokenStream,
      scanFrom cs pos found =
        { found' with tokens := found'.tokens.push (Token.endOfInput ((pos.after cs).spanOver [])) } ∧
      ∀ ys, scanFrom (cs ++ ys) pos found = scanFrom ys (pos.after cs) found' := by
  rcases h with rfl | h
  · exact ⟨found, by simp [scanFrom, Position.after], fun ys => by simp [Position.after]⟩
  · exact scanFrom_append_of_endsOnSeparator h pos found

end Scan

end TypeReflection
