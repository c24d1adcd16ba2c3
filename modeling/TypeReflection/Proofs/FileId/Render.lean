import TypeReflection.FileId

/-!
# Rendered ids are valid

`FileId.render` writes 16 bytes as 32 hex digits with underscores after the 8th, 12th, 16th and
20th, and `FileId.parse` accepts what it writes. The check `firstFault` runs along the text, so
the rendered text is taken apart into its five runs of digits and four underscores: a run of hex
digits that covers no separator position passes (`firstFault_hexDigits`), an underscore at a
separator position passes, and a passing piece is skipped (`firstFault_append_of_eq_none`).
-/

set_option autoImplicit false

namespace TypeReflection.FileId

/-- The underscores stand after the 8th, 12th, 16th and 20th digit, at the positions these
digits and the underscores before them push them to. -/
theorem separatorPositions_eq : separatorPositions = [8, 13, 18, 23] := rfl

/-- The grouped text, run by run. -/
theorem group_eq (digits : List Char) :
    group digits = digits.take 8 ++ '_' :: (digits.drop 8).take 4 ++ '_' ::
      (digits.drop 12).take 4 ++ '_' :: (digits.drop 16).take 4 ++ '_' :: (digits.drop 20).take 12 := by
  simp [group, groups, runs, List.drop_drop, List.intercalate]

theorem firstFault_cons (c : Char) (cs : List Char) (i : Nat) :
    firstFault (c :: cs) i =
      if (if separatorPositions.contains i then c == '_' else isHexDigit c) = true then
        firstFault cs (i + 1)
      else some (c, i) := rfl

theorem firstFault_append_of_eq_none {a : List Char} (b : List Char) {i : Nat}
    (h : firstFault a i = none) : firstFault (a ++ b) i = firstFault b (i + a.length) := by
  induction a generalizing i with
  | nil => rfl
  | cons c cs ih =>
    rw [firstFault_cons] at h
    by_cases hok : (if separatorPositions.contains i then c == '_' else isHexDigit c) = true
    · rw [if_pos hok] at h
      rw [List.cons_append, firstFault_cons, if_pos hok, ih h, List.length_cons, Nat.add_assoc,
        Nat.add_comm 1]
    · rw [if_neg hok] at h
      cases h

/-- A run of hex digits that covers no separator position holds no fault. -/
theorem firstFault_hexDigits {cs : List Char} {i : Nat} (hhex : ∀ c ∈ cs, isHexDigit c = true)
    (hsep : ∀ k < cs.length, separatorPositions.contains (i + k) = false) :
    firstFault cs i = none := by
  induction cs generalizing i with
  | nil => rfl
  | cons c cs ih =>
    have hi : separatorPositions.contains i = false := by simpa using hsep 0 (by simp)
    have hok : (if separatorPositions.contains i then c == '_' else isHexDigit c) = true := by
      simp only [hi, Bool.false_eq_true, if_false]
      exact hhex c List.mem_cons_self
    rw [firstFault_cons, if_pos hok]
    refine ih (fun d hd => hhex d (List.mem_cons_of_mem _ hd)) fun k hk => ?_
    simpa [Nat.add_assoc, Nat.add_comm 1] using hsep (k + 1) (by simp [hk])

theorem firstFault_separator (cs : List Char) {i : Nat} (hi : separatorPositions.contains i = true) :
    firstFault ('_' :: cs) i = firstFault cs (i + 1) := by
  rw [firstFault_cons, if_pos (by simp only [hi, if_true]; rfl)]

theorem isHexDigit_hexDigit {n : Nat} (h : n < 16) : isHexDigit (hexDigit n) = true := by
  revert n
  decide

theorem isHexDigit_of_mem_byteDigits {bytes : List UInt8} {c : Char}
    (h : c ∈ bytes.flatMap byteDigits) : isHexDigit c = true := by
  obtain ⟨b, -, hc⟩ := List.mem_flatMap.1 h
  simp only [byteDigits, List.mem_cons, List.not_mem_nil, or_false] at hc
  have hb := b.toNat_lt
  rcases hc with rfl | rfl
  · exact isHexDigit_hexDigit (by omega)
  · exact isHexDigit_hexDigit (Nat.mod_lt _ (by decide))

theorem length_byteDigits (bytes : List UInt8) :
    (bytes.flatMap byteDigits).length = 2 * bytes.length := by
  induction bytes with
  | nil => rfl
  | cons b bs ih => simp [List.flatMap_cons, byteDigits, ih]; omega

/-- Putting the underscores into 32 hex digits gives a text with no fault. -/
theorem firstFault_group {digits : List Char} (hlen : digits.length = 32)
    (hhex : ∀ c ∈ digits, isHexDigit c = true) : firstFault (group digits) 0 = none := by
  have hrun : ∀ (i n : Nat) (run : List Char), run <:+: digits → run.length = n →
      (∀ k < n, separatorPositions.contains (i + k) = false) → firstFault run i = none :=
    fun i n run hsub hn hsep =>
      firstFault_hexDigits (fun c hc => hhex c (hsub.subset hc)) (hn ▸ hsep)
  have hmid : ∀ m n, ((digits.drop m).take n) <:+: digits :=
    fun m n => (List.take_prefix _ _).isInfix.trans (List.drop_suffix _ _).isInfix
  have h₁ : (digits.take 8).length = 8 := by simp [hlen]
  have h₂ : ((digits.drop 8).take 4).length = 4 := by simp [hlen]
  have h₃ : ((digits.drop 12).take 4).length = 4 := by simp [hlen]
  have h₄ : ((digits.drop 16).take 4).length = 4 := by simp [hlen]
  have h₅ : ((digits.drop 20).take 12).length = 12 := by simp [hlen]
  -- the five runs of digits lie at 0, 9, 14, 19 and 24, the underscores at 8, 13, 18 and 23
  rw [group_eq]
  simp only [List.append_assoc, List.cons_append]
  rw [firstFault_append_of_eq_none _ (hrun 0 8 _ (List.take_prefix _ _).isInfix h₁ (by decide)),
    h₁, firstFault_separator _ (by decide),
    firstFault_append_of_eq_none _ (hrun 9 4 _ (hmid 8 4) h₂ (by decide)), h₂,
    firstFault_separator _ (by decide),
    firstFault_append_of_eq_none _ (hrun 14 4 _ (hmid 12 4) h₃ (by decide)), h₃,
    firstFault_separator _ (by decide),
    firstFault_append_of_eq_none _ (hrun 19 4 _ (hmid 16 4) h₄ (by decide)), h₄,
    firstFault_separator _ (by decide)]
  exact hrun 24 12 _ (hmid 20 12) h₅ (by decide)

theorem length_group {digits : List Char} (hlen : digits.length = 32) :
    (group digits).length = 36 := by
  simp [group_eq, hlen]

/-- The id rendered from 16 bytes is valid. -/
theorem parse_ofBytes {bytes : List UInt8} (h : bytes.length = 16) :
    parse (ofBytes bytes).text = .ok (ofBytes bytes) := by
  have hlen : (bytes.flatMap byteDigits).length = 32 := by rw [length_byteDigits, h]
  simp only [parse, ofBytes, render, String.toList_ofList, length_group hlen,
    firstFault_group hlen fun c hc => isHexDigit_of_mem_byteDigits hc]
  rfl

end TypeReflection.FileId
