import TypeReflection.Proofs.FileId.Render

/-!
# Reading an id back

`FileId.ofBytes` writes each of its bytes as two lowercase hex digits, as `{:02x}` writes them,
and puts the 32 digits in groups of 8, 4, 4, 4 and 12 joined by underscores (`ofBytes_text`).
Rendering loses nothing: the underscores stand at fixed places and each byte has two digits of
its own (`ofBytes_injective`).

`FileId.parse` accepts exactly the rendered texts. Its check `firstFault` walks the text and
stops at the first character out of place (`firstFault_eq_none_iff`, `firstFault_eq_some`),
where a character is in place (`Allowed`) when it is an underscore at one of the four separator
positions, or a lowercase hex digit elsewhere. The characters in place at a position are exactly
those that some rendered id has there (`fitsAt_iff`), and a text of 36 characters, each in
place, is the rendering of the bytes its digits spell (`exists_ofBytes_of_firstFault`).

Main statement: `parse_reads_exactly_rendered`.
-/

set_option autoImplicit false

namespace TypeReflection.FileId

/-- The two lowercase hex digits of a byte, as `{:02x}` writes them: its base-16 digits, padded
with `0` on the left to two. -/
def hexPair (b : UInt8) : List Char := (Nat.toDigits 16 b.toNat).leftpad 2 '0'

/-- The lowercase hex of a run of bytes, two digits a byte. -/
def hexOf (bytes : List UInt8) : List Char := bytes.flatMap hexPair

/-- `c` may stand at character position `i` of an id: an underscore at the four separator
positions, a lowercase hex digit elsewhere. -/
def Allowed (i : Nat) (c : Char) : Prop :=
  if i ∈ separatorPositions then c = '_' else isHexDigit c = true

/-- Some id rendered from 16 bytes has `c` at character position `i`. -/
def FitsAt (i : Nat) (c : Char) : Prop :=
  ∃ bytes : Vector UInt8 16, (ofBytes bytes.toList).text.toList[i]? = some c

/-! ## The digits of a byte -/

theorem hexDigit_eq_digitChar : ∀ n, n < 16 → hexDigit n = n.digitChar := by decide

theorem hexDigit_injective : ∀ m, m < 16 → ∀ n, n < 16 → hexDigit m = hexDigit n → m = n := by
  decide

/-- A byte's digits are those `{:02x}` writes. -/
theorem byteDigits_eq_hexPair (b : UInt8) : byteDigits b = hexPair b := by
  have hb := b.toNat_lt
  unfold byteDigits hexPair
  by_cases hsmall : b.toNat < 16
  · -- one base-16 digit, padded with a zero
    rw [Nat.toDigits_of_lt_base hsmall, Nat.div_eq_of_lt hsmall, Nat.mod_eq_of_lt hsmall,
      hexDigit_eq_digitChar 0 (by decide), hexDigit_eq_digitChar _ hsmall]
    rfl
  · rw [Nat.toDigits_of_base_le (by decide) (by omega), Nat.toDigits_of_lt_base (by omega),
      hexDigit_eq_digitChar _ (by omega), hexDigit_eq_digitChar _ (Nat.mod_lt _ (by decide))]
    rfl

/-- Two bytes with the same digits are the same byte. -/
theorem byteDigits_injective {a b : UInt8} (h : byteDigits a = byteDigits b) : a = b := by
  simp only [byteDigits, List.cons.injEq, and_true] at h
  have ha := a.toNat_lt
  have hb := b.toNat_lt
  have hhi := hexDigit_injective _ (by omega) _ (by omega) h.1
  have hlo := hexDigit_injective _ (Nat.mod_lt _ (by decide)) _ (Nat.mod_lt _ (by decide)) h.2
  apply UInt8.toNat_inj.1
  rw [← Nat.div_add_mod a.toNat 16, ← Nat.div_add_mod b.toNat 16, hhi, hlo]

/-- Runs of bytes with the same digits are the same run. -/
theorem flatMap_byteDigits_injective {bytes bytes' : List UInt8}
    (h : bytes.flatMap byteDigits = bytes'.flatMap byteDigits) : bytes = bytes' := by
  induction bytes generalizing bytes' with
  | nil =>
    cases bytes' with
    | nil => rfl
    | cons b' bs' => simp [byteDigits] at h
  | cons b bs ih =>
    cases bytes' with
    | nil => simp [byteDigits] at h
    | cons b' bs' =>
      rw [List.flatMap_cons, List.flatMap_cons] at h
      obtain ⟨hb, hbs⟩ := List.append_inj h rfl
      rw [byteDigits_injective hb, ih hbs]

/-- Every lowercase hex digit is the digit of some value below 16. -/
theorem exists_hexDigit {c : Char} (h : isHexDigit c = true) : ∃ n < 16, hexDigit n = c := by
  have hval : ∀ ch : Char, ch.val.toNat = ch.toNat := fun _ => rfl
  have h0 : '0'.toNat = 48 := rfl
  have h9 : '9'.toNat = 57 := rfl
  have ha : 'a'.toNat = 97 := rfl
  have hf : 'f'.toNat = 102 := rfl
  simp only [isHexDigit, Char.isDigit, Bool.or_eq_true, Bool.and_eq_true, decide_eq_true_eq,
    Char.le_def, UInt32.le_iff_toNat_le, hval, h0, h9, ha, hf] at h
  rcases h with ⟨hlo, hhi⟩ | ⟨hlo, hhi⟩
  · refine ⟨c.toNat - 48, by omega, ?_⟩
    rw [hexDigit, if_pos (by omega), h0, show 48 + (c.toNat - 48) = c.toNat by omega,
      Char.ofNat_toNat]
  · refine ⟨c.toNat - 87, by omega, ?_⟩
    rw [hexDigit, if_neg (by omega), ha, show 97 + (c.toNat - 87) - 10 = c.toNat by omega,
      Char.ofNat_toNat]

/-- An even run of lowercase hex digits spells some run of bytes. -/
theorem exists_bytes_of_hexDigits :
    ∀ (k : Nat) (digits : List Char), digits.length = 2 * k →
      (∀ c ∈ digits, isHexDigit c = true) →
      ∃ bytes : List UInt8, bytes.length = k ∧ bytes.flatMap byteDigits = digits
  | 0, [], _, _ => ⟨[], rfl, rfl⟩
  | k + 1, c₁ :: c₂ :: rest, hlen, hhex => by
    obtain ⟨n₁, hn₁, rfl⟩ := exists_hexDigit (hhex c₁ (by simp))
    obtain ⟨n₂, hn₂, rfl⟩ := exists_hexDigit (hhex c₂ (by simp))
    obtain ⟨bytes, hbytes, hrest⟩ := exists_bytes_of_hexDigits k rest
      (by simp at hlen; omega) fun c hc => hhex c (by simp [hc])
    -- the byte `16 * n₁ + n₂` has the digits `n₁` and `n₂`
    have hbyte : (UInt8.ofNat (16 * n₁ + n₂)).toNat = 16 * n₁ + n₂ := by
      rw [UInt8.toNat_ofNat', Nat.mod_eq_of_lt (by simp; omega)]
    refine ⟨UInt8.ofNat (16 * n₁ + n₂) :: bytes, by simp [hbytes], ?_⟩
    rw [List.flatMap_cons, hrest]
    simp only [byteDigits, hbyte]
    rw [show (16 * n₁ + n₂) / 16 = n₁ by omega, show (16 * n₁ + n₂) % 16 = n₂ by omega]
    rfl
  | 0, _ :: _, hlen, _ => by simp at hlen
  | k + 1, [], hlen, _ => by simp at hlen
  | k + 1, [_], hlen, _ => by simp at hlen; omega

/-! ## Grouping -/

theorem take_flatMap_byteDigits (bytes : List UInt8) (n k : Nat) (h : n = 2 * k) :
    (bytes.flatMap byteDigits).take n = (bytes.take k).flatMap byteDigits := by
  subst h
  induction bytes generalizing k with
  | nil => simp
  | cons b bs ih =>
    cases k with
    | zero => simp
    | succ k =>
      rw [show 2 * (k + 1) = 2 * k + 1 + 1 by omega]
      simp only [List.flatMap_cons, byteDigits, List.cons_append, List.nil_append,
        List.take_succ_cons, ih]

theorem drop_flatMap_byteDigits (bytes : List UInt8) (n k : Nat) (h : n = 2 * k) :
    (bytes.flatMap byteDigits).drop n = (bytes.drop k).flatMap byteDigits := by
  subst h
  induction bytes generalizing k with
  | nil => simp
  | cons b bs ih =>
    cases k with
    | zero => simp
    | succ k =>
      rw [show 2 * (k + 1) = 2 * k + 1 + 1 by omega]
      simp only [List.flatMap_cons, byteDigits, List.cons_append, List.nil_append,
        List.drop_succ_cons, ih]

/-- An id is the lowercase hex of its bytes in groups of 4, 2, 2, 2 and 6 bytes, that is of 8,
4, 4, 4 and 12 digits, joined by underscores. -/
theorem ofBytes_text {bytes : List UInt8} (h : bytes.length = 16) :
    (ofBytes bytes).text.toList =
      hexOf (bytes.take 4) ++ '_' :: hexOf ((bytes.drop 4).take 2) ++ '_' ::
        hexOf ((bytes.drop 6).take 2) ++ '_' :: hexOf ((bytes.drop 8).take 2) ++ '_' ::
          hexOf (bytes.drop 10) := by
  have hpair : byteDigits = hexPair := funext byteDigits_eq_hexPair
  simp only [ofBytes, render, String.toList_ofList, group_eq, hexOf, ← hpair]
  rw [take_flatMap_byteDigits bytes 8 4 rfl, drop_flatMap_byteDigits bytes 8 4 rfl,
    take_flatMap_byteDigits _ 4 2 rfl, drop_flatMap_byteDigits bytes 12 6 rfl,
    take_flatMap_byteDigits _ 4 2 rfl, drop_flatMap_byteDigits bytes 16 8 rfl,
    take_flatMap_byteDigits _ 4 2 rfl, drop_flatMap_byteDigits bytes 20 10 rfl,
    take_flatMap_byteDigits _ 12 6 rfl]
  -- the last group holds the six bytes that are left
  have hlast : (bytes.drop 10).take 6 = bytes.drop 10 := List.take_of_length_le (by simp [h])
  rw [hlast]

/-- Grouping 32 digits puts the underscores between runs of 8, 4, 4, 4 and 12. -/
theorem group_pieces {a b c d e : List Char} (ha : a.length = 8)
    (hb : b.length = 4) (hc : c.length = 4) (hd : d.length = 4) (he : e.length = 12) :
    group (a ++ b ++ c ++ d ++ e) = a ++ '_' :: b ++ '_' :: c ++ '_' :: d ++ '_' :: e := by
  simp [group_eq, List.drop_append, List.drop_eq_nil_of_le,
    List.take_of_length_le, ha, hb, hc, hd, he]

/-- A list splits after its first `n` elements. -/
theorem exists_split {α : Type} (l : List α) (n : Nat) (h : n ≤ l.length) :
    ∃ a r, a.length = n ∧ r.length = l.length - n ∧ l = a ++ r :=
  ⟨l.take n, l.drop n, by simp [h], by simp, (List.take_append_drop n l).symm⟩

/-- A list splits around its element at `n`. -/
theorem exists_split_at {α : Type} (l : List α) (n : Nat) (h : n < l.length) :
    ∃ a x r, a.length = n ∧ r.length = l.length - n - 1 ∧ l = a ++ x :: r :=
  ⟨l.take n, l[n], l.drop (n + 1), by simp; omega, by simp; omega,
    by rw [List.getElem_cons_drop, List.take_append_drop]⟩

/-- 32 digits are runs of 8, 4, 4, 4 and 12. -/
theorem exists_digit_runs {digits : List Char} (h : digits.length = 32) :
    ∃ a b c d e, a.length = 8 ∧ b.length = 4 ∧ c.length = 4 ∧ d.length = 4 ∧ e.length = 12 ∧
      digits = a ++ b ++ c ++ d ++ e := by
  obtain ⟨a, r₁, ha, hr₁, rfl⟩ := exists_split digits 8 (by omega)
  obtain ⟨b, r₂, hb, hr₂, rfl⟩ := exists_split r₁ 4 (by simp at h; omega)
  obtain ⟨c, r₃, hc, hr₃, rfl⟩ := exists_split r₂ 4 (by simp at h; omega)
  obtain ⟨d, e, hd, he, rfl⟩ := exists_split r₃ 4 (by simp at h; omega)
  exact ⟨a, b, c, d, e, ha, hb, hc, hd, by simp at h; omega, by simp⟩

/-- 36 characters are runs of 8, 4, 4, 4 and 12 around the four at the separator positions. -/
theorem exists_id_runs {cs : List Char} (h : cs.length = 36) :
    ∃ a b c d e x y z w, a.length = 8 ∧ b.length = 4 ∧ c.length = 4 ∧ d.length = 4 ∧
      e.length = 12 ∧ cs = a ++ x :: b ++ y :: c ++ z :: d ++ w :: e := by
  obtain ⟨a, x, r₁, ha, hr₁, rfl⟩ := exists_split_at cs 8 (by omega)
  obtain ⟨b, y, r₂, hb, hr₂, rfl⟩ := exists_split_at r₁ 4 (by simp at h; omega)
  obtain ⟨c, z, r₃, hc, hr₃, rfl⟩ := exists_split_at r₂ 4 (by simp at h; omega)
  obtain ⟨d, w, e, hd, he, rfl⟩ := exists_split_at r₃ 4 (by simp at h; omega)
  exact ⟨a, b, c, d, e, x, y, z, w, ha, hb, hc, hd, by simp at h; omega, by simp⟩

/-- The pieces of two grouped texts with runs of the same lengths are the same. -/
theorem runs_eq_of_group_eq {a b c d e a' b' c' d' e' : List Char}
    (ha : a.length = a'.length) (hb : b.length = b'.length) (hc : c.length = c'.length)
    (hd : d.length = d'.length)
    (h : a ++ '_' :: b ++ '_' :: c ++ '_' :: d ++ '_' :: e =
      a' ++ '_' :: b' ++ '_' :: c' ++ '_' :: d' ++ '_' :: e') :
    a ++ b ++ c ++ d ++ e = a' ++ b' ++ c' ++ d' ++ e' := by
  simp only [List.append_assoc, List.cons_append] at h
  obtain ⟨rfl, h₁⟩ := List.append_inj h ha
  obtain ⟨rfl, h₂⟩ := List.append_inj (List.cons.inj h₁).2 hb
  obtain ⟨rfl, h₃⟩ := List.append_inj (List.cons.inj h₂).2 hc
  obtain ⟨rfl, h₄⟩ := List.append_inj (List.cons.inj h₃).2 hd
  rw [(List.cons.inj h₄).2]

/-- Rendering is injective on 16 bytes. -/
theorem ofBytes_injective {bytes bytes' : List UInt8} (h₁ : bytes.length = 16)
    (h₂ : bytes'.length = 16) (h : ofBytes bytes = ofBytes bytes') : bytes = bytes' := by
  have hlen₁ : (bytes.flatMap byteDigits).length = 32 := by rw [length_byteDigits, h₁]
  have hlen₂ : (bytes'.flatMap byteDigits).length = 32 := by rw [length_byteDigits, h₂]
  obtain ⟨a, b, c, d, e, ha, hb, hc, hd, he, hdig⟩ := exists_digit_runs hlen₁
  obtain ⟨a', b', c', d', e', ha', hb', hc', hd', he', hdig'⟩ := exists_digit_runs hlen₂
  have htext : (ofBytes bytes).text.toList = (ofBytes bytes').text.toList := by rw [h]
  simp only [ofBytes, render, String.toList_ofList, hdig, hdig', group_pieces ha hb hc hd he,
    group_pieces ha' hb' hc' hd' he'] at htext
  apply flatMap_byteDigits_injective
  rw [hdig, hdig']
  exact runs_eq_of_group_eq (by rw [ha, ha']) (by rw [hb, hb']) (by rw [hc, hc'])
    (by rw [hd, hd']) htext

/-! ## The check -/

theorem ok_iff_allowed (i : Nat) (c : Char) :
    (if separatorPositions.contains i then c == '_' else isHexDigit c) = true ↔ Allowed i c := by
  unfold Allowed
  by_cases hi : i ∈ separatorPositions
  · simp [hi]
  · simp [hi]

/-- The check finds no fault exactly when every character is in place. -/
theorem firstFault_eq_none_iff (cs : List Char) (k : Nat) :
    firstFault cs k = none ↔ ∀ j (hj : j < cs.length), Allowed (k + j) cs[j] := by
  induction cs generalizing k with
  | nil => simp [firstFault]
  | cons c cs ih =>
    rw [firstFault_cons]
    by_cases hok : (if separatorPositions.contains k then c == '_' else isHexDigit c) = true
    · rw [if_pos hok, ih]
      constructor
      · intro hrest j hj
        cases j with
        | zero => simpa using (ok_iff_allowed k c).1 hok
        | succ j =>
          simpa [Nat.add_assoc, Nat.add_comm 1] using hrest j (by simpa using hj)
      · intro hall j hj
        have hnext := hall (j + 1) (by simpa using hj)
        rw [List.getElem_cons_succ] at hnext
        simpa [Nat.add_assoc, Nat.add_comm 1] using hnext
    · rw [if_neg hok]
      simp only [reduceCtorEq, false_iff]
      intro hall
      have hfirst := hall 0 (by simp)
      rw [List.getElem_cons_zero, Nat.add_zero] at hfirst
      exact mt (ok_iff_allowed k c).2 hok hfirst

/-- A fault the check finds is the first character out of place. -/
theorem firstFault_eq_some {cs : List Char} {k i : Nat} {c : Char}
    (h : firstFault cs k = some (c, i)) :
    k ≤ i ∧ ∃ hi : i - k < cs.length, cs[i - k] = c ∧ ¬Allowed i c ∧
      ∀ j (hj : j < i - k), Allowed (k + j) cs[j] := by
  induction cs generalizing k with
  | nil => simp [firstFault] at h
  | cons d cs ih =>
    rw [firstFault_cons] at h
    by_cases hok : (if separatorPositions.contains k then d == '_' else isHexDigit d) = true
    · rw [if_pos hok] at h
      obtain ⟨hki, hi, hc, hbad, hbefore⟩ := ih h
      refine ⟨by omega, by simp; omega, ?_, hbad, fun j hj => ?_⟩
      · simp only [List.getElem_cons, dif_neg (show i - k ≠ 0 by omega), Nat.sub_sub]
        exact hc
      · cases j with
        | zero => simpa using (ok_iff_allowed k d).1 hok
        | succ j =>
          simpa [Nat.add_assoc, Nat.add_comm 1] using hbefore j (by omega)
    · rw [if_neg hok] at h
      obtain ⟨rfl, rfl⟩ := Prod.mk.inj (Option.some.inj h).symm
      exact ⟨Nat.le_refl _, by simp, by simp, by simpa using mt (ok_iff_allowed _ _).2 hok,
        fun j hj => absurd hj (by omega)⟩

/-! ## Which characters fit where -/

/-- Every character of a rendered id is in place. -/
theorem allowed_ofBytes {bytes : List UInt8} (h : bytes.length = 16) :
    ∀ i (hi : i < (ofBytes bytes).text.toList.length), Allowed i (ofBytes bytes).text.toList[i] := by
  have hlen : (bytes.flatMap byteDigits).length = 32 := by rw [length_byteDigits, h]
  have hnone := firstFault_group hlen fun c hc => isHexDigit_of_mem_byteDigits hc
  have htext : (ofBytes bytes).text.toList = group (bytes.flatMap byteDigits) := by
    simp only [ofBytes, render, String.toList_ofList]
  rw [htext]
  simpa using (firstFault_eq_none_iff _ 0).1 hnone

theorem length_ofBytes {bytes : List UInt8} (h : bytes.length = 16) :
    (ofBytes bytes).text.toList.length = 36 := by
  simp [ofBytes, render, length_group (by rw [length_byteDigits, h] : _ = 32)]

/-- The characters of a grouped text are its digits and underscores. -/
theorem mem_group {digits : List Char} {c : Char} (h : c ∈ group digits) :
    c ∈ digits ∨ c = '_' := by
  rw [group_eq] at h
  simp only [List.append_assoc, List.cons_append, List.mem_append, List.mem_cons] at h
  rcases h with h | h | h | h | h | h | h | h | h
  all_goals first
    | exact .inr h
    | exact .inl (List.mem_of_mem_take h)
    | exact .inl (List.mem_of_mem_drop h)
    | exact .inl (List.mem_of_mem_drop (List.mem_of_mem_take h))

/-- The byte whose two digits are both `hexDigit n`. -/
theorem byteDigits_repeat {n : Nat} (hn : n < 16) :
    byteDigits (UInt8.ofNat (17 * n)) = [hexDigit n, hexDigit n] := by
  have hbyte : (UInt8.ofNat (17 * n)).toNat = 17 * n := by
    rw [UInt8.toNat_ofNat', Nat.mod_eq_of_lt (by simp; omega)]
  simp only [byteDigits, hbyte]
  rw [show 17 * n / 16 = n by omega, show 17 * n % 16 = n by omega]

/-- The id of 16 bytes whose digits are all `hexDigit n` holds nothing but that digit and
underscores. -/
theorem mem_ofBytes_replicate {n : Nat} (hn : n < 16) {c : Char}
    (h : c ∈ (ofBytes (List.replicate 16 (UInt8.ofNat (17 * n)))).text.toList) :
    c = hexDigit n ∨ c = '_' := by
  simp only [ofBytes, render, String.toList_ofList] at h
  rcases mem_group h with h | h
  · obtain ⟨b, hb, hc⟩ := List.mem_flatMap.1 h
    rw [(List.mem_replicate.1 hb).2, byteDigits_repeat hn] at hc
    simp only [List.mem_cons, List.not_mem_nil, or_false, or_self] at hc
    exact .inl hc
  · exact .inr h

/-- The characters in place at a position are exactly those some rendered id has there. -/
theorem fitsAt_iff (i : Nat) (c : Char) : FitsAt i c ↔ i < 36 ∧ Allowed i c := by
  constructor
  · rintro ⟨bytes, hc⟩
    obtain ⟨hi, rfl⟩ := List.getElem?_eq_some_iff.1 hc
    rw [length_ofBytes bytes.length_toList] at hi
    exact ⟨hi, allowed_ofBytes bytes.length_toList _ _⟩
  · rintro ⟨hi, hallowed⟩
    by_cases hsep : i ∈ separatorPositions
    · -- every id has an underscore there
      have hc : c = '_' := by simpa [Allowed, hsep] using hallowed
      refine ⟨Vector.replicate 16 0, ?_⟩
      have hlen := length_ofBytes (Vector.replicate 16 (0 : UInt8)).length_toList
      have hi' : i < (ofBytes (Vector.replicate 16 (0 : UInt8)).toList).text.toList.length := by
        omega
      have hat := allowed_ofBytes (Vector.replicate 16 (0 : UInt8)).length_toList i hi'
      simp only [Allowed, hsep, if_true] at hat
      rw [List.getElem?_eq_getElem (by omega), hat, hc]
    · -- the id whose digits are all `c` has `c` there, since `c` is no underscore
      have hhex : isHexDigit c = true := by simpa [Allowed, hsep] using hallowed
      obtain ⟨n, hn, rfl⟩ := exists_hexDigit hhex
      refine ⟨Vector.replicate 16 (UInt8.ofNat (17 * n)), ?_⟩
      rw [Vector.toList_replicate]
      have hrep : (List.replicate 16 (UInt8.ofNat (17 * n))).length = 16 := List.length_replicate
      have hlen := length_ofBytes hrep
      have hi' : i < (ofBytes (List.replicate 16 (UInt8.ofNat (17 * n)))).text.toList.length := by
        omega
      have hat := allowed_ofBytes hrep i hi'
      simp only [Allowed, hsep, if_false] at hat
      rw [List.getElem?_eq_getElem (by omega)]
      rcases mem_ofBytes_replicate hn (List.getElem_mem (by omega)) with h | h
      · rw [h]
      · rw [h] at hat
        exact absurd hat (by decide)

/-! ## Reading a text back -/

/-- A check that passes over a text passes over its front and its back. -/
theorem firstFault_append_eq_none {a b : List Char} {k : Nat} (h : firstFault (a ++ b) k = none) :
    firstFault a k = none ∧ firstFault b (k + a.length) = none := by
  induction a generalizing k with
  | nil => exact ⟨rfl, by simpa using h⟩
  | cons c cs ih =>
    rw [List.cons_append, firstFault_cons] at h
    by_cases hok : (if separatorPositions.contains k then c == '_' else isHexDigit c) = true
    · rw [if_pos hok] at h
      obtain ⟨h₁, h₂⟩ := ih h
      refine ⟨by rw [firstFault_cons, if_pos hok]; exact h₁, ?_⟩
      simpa [Nat.add_assoc, Nat.add_comm 1] using h₂
    · rw [if_neg hok] at h
      cases h

theorem allowed_of_firstFault_cons {c : Char} {cs : List Char} {k : Nat}
    (h : firstFault (c :: cs) k = none) : Allowed k c ∧ firstFault cs (k + 1) = none := by
  rw [firstFault_cons] at h
  by_cases hok : (if separatorPositions.contains k then c == '_' else isHexDigit c) = true
  · rw [if_pos hok] at h
    exact ⟨(ok_iff_allowed k c).1 hok, h⟩
  · rw [if_neg hok] at h
    cases h

/-- A run that passes the check away from the separator positions is made of hex digits. -/
theorem isHexDigit_of_firstFault {a : List Char} {k : Nat} (h : firstFault a k = none)
    (hsep : ∀ j < a.length, k + j ∉ separatorPositions) : ∀ c ∈ a, isHexDigit c = true := by
  intro c hc
  obtain ⟨j, hj, rfl⟩ := List.mem_iff_getElem.1 hc
  have hallowed := (firstFault_eq_none_iff a k).1 h j hj
  simpa [Allowed, hsep j hj] using hallowed

/-- A text of 36 characters that passes the check is the rendering of 16 bytes. -/
theorem exists_ofBytes_of_firstFault {cs : List Char} (hlen : cs.length = 36)
    (h : firstFault cs 0 = none) :
    ∃ bytes : Vector UInt8 16, (ofBytes bytes.toList).text.toList = cs := by
  obtain ⟨a, b, c, d, e, x, y, z, w, ha, hb, hc, hd, he, rfl⟩ := exists_id_runs hlen
  -- walk the check along the runs and the four characters between them
  simp only [List.append_assoc, List.cons_append] at h
  obtain ⟨hA, h⟩ := firstFault_append_eq_none h
  obtain ⟨hx, h⟩ := allowed_of_firstFault_cons h
  obtain ⟨hB, h⟩ := firstFault_append_eq_none h
  obtain ⟨hy, h⟩ := allowed_of_firstFault_cons h
  obtain ⟨hC, h⟩ := firstFault_append_eq_none h
  obtain ⟨hz, h⟩ := allowed_of_firstFault_cons h
  obtain ⟨hD, h⟩ := firstFault_append_eq_none h
  obtain ⟨hw, hE⟩ := allowed_of_firstFault_cons h
  simp only [ha, hb, hc, hd, Nat.zero_add] at hx hy hz hw hB hC hD hE
  have hsep : ∀ k, k ∈ separatorPositions → ∀ ch, Allowed k ch → ch = '_' := by
    intro k hk ch hch
    simpa [Allowed, hk] using hch
  obtain rfl := hsep _ (by decide) _ hx
  obtain rfl := hsep _ (by decide) _ hy
  obtain rfl := hsep _ (by decide) _ hz
  obtain rfl := hsep _ (by decide) _ hw
  have hhex : ∀ ch ∈ a ++ b ++ c ++ d ++ e, isHexDigit ch = true := by
    simp only [List.mem_append]
    rintro ch ((((hch | hch) | hch) | hch) | hch)
    · exact isHexDigit_of_firstFault hA (fun j hj => by simp [separatorPositions_eq]; omega) ch hch
    · exact isHexDigit_of_firstFault hB (fun j hj => by simp [separatorPositions_eq]; omega) ch hch
    · exact isHexDigit_of_firstFault hC (fun j hj => by simp [separatorPositions_eq]; omega) ch hch
    · exact isHexDigit_of_firstFault hD (fun j hj => by simp [separatorPositions_eq]; omega) ch hch
    · exact isHexDigit_of_firstFault hE (fun j hj => by simp [separatorPositions_eq]; omega) ch hch
  obtain ⟨bytes, hbytes, hdigits⟩ := exists_bytes_of_hexDigits 16 (a ++ b ++ c ++ d ++ e)
    (by simp [ha, hb, hc, hd, he]) hhex
  refine ⟨⟨bytes.toArray, by simp [hbytes]⟩, ?_⟩
  simp only [Vector.toList_mk, ofBytes, render, String.toList_ofList]
  rw [hdigits, group_pieces ha hb hc hd he]

theorem parse_of_length_ne {s : String} (h : s.toList.length ≠ 36) :
    parse s = .error (.invalidLength s.toList.length) := by
  simp [parse, length, h]

theorem parse_of_firstFault_eq_none {s : String} (h : s.toList.length = 36)
    (hf : firstFault s.toList 0 = none) : parse s = .ok ⟨s⟩ := by
  simp [parse, length, h, hf]

theorem parse_of_firstFault_eq_some {s : String} (h : s.toList.length = 36) {c : Char} {i : Nat}
    (hf : firstFault s.toList 0 = some (c, i)) : parse s = .error (.invalidCharacter c i) := by
  simp [parse, length, h, hf]

/-- `FileId.parse` gives back an id only as the text it was given. -/
theorem eq_of_parse_eq_ok {s : String} {id : FileId} (h : parse s = .ok id) : id = ⟨s⟩ := by
  by_cases hlen : s.toList.length = 36
  · cases hf : firstFault s.toList 0 with
    | none => rw [parse_of_firstFault_eq_none hlen hf] at h; exact (Except.ok.inj h).symm
    | some fault =>
      rw [parse_of_firstFault_eq_some hlen hf] at h
      cases h
  · rw [parse_of_length_ne hlen] at h
    cases h

/-- The texts `FileId.parse` accepts are exactly the rendered ids. -/
theorem parse_eq_ok_iff (s : String) :
    parse s = .ok ⟨s⟩ ↔ ∃ bytes : Vector UInt8 16, ofBytes bytes.toList = ⟨s⟩ := by
  constructor
  · intro h
    by_cases hlen : s.toList.length = 36
    · cases hf : firstFault s.toList 0 with
      | none =>
        obtain ⟨bytes, hbytes⟩ := exists_ofBytes_of_firstFault hlen hf
        exact ⟨bytes, by rw [FileId.mk.injEq, ← String.toList_inj, hbytes]⟩
      | some fault =>
        rw [parse_of_firstFault_eq_some hlen hf] at h
        cases h
    · rw [parse_of_length_ne hlen] at h
      cases h
  · rintro ⟨bytes, hbytes⟩
    have hparse := parse_ofBytes bytes.length_toList
    rw [hbytes] at hparse
    exact hparse

/-- A text of 36 characters that no id renders to is refused at its first character out of
place, which is one no rendered id has there. -/
theorem parse_eq_invalidCharacter {s : String} (hlen : s.toList.length = 36)
    (hnot : ¬∃ bytes : Vector UInt8 16, ofBytes bytes.toList = ⟨s⟩) :
    ∃ (i : Nat) (hi : i < s.toList.length),
      parse s = .error (.invalidCharacter s.toList[i] i) ∧ ¬FitsAt i s.toList[i] ∧
        ∀ (j : Nat) (hj : j < i), FitsAt j s.toList[j] := by
  cases hfault : firstFault s.toList 0 with
  | none =>
    obtain ⟨bytes, hbytes⟩ := exists_ofBytes_of_firstFault hlen hfault
    exact absurd ⟨bytes, by rw [FileId.mk.injEq, ← String.toList_inj, hbytes]⟩ hnot
  | some fault =>
    obtain ⟨c, i⟩ := fault
    obtain ⟨-, hi, hc, hbad, hbefore⟩ := firstFault_eq_some hfault
    simp only [Nat.sub_zero, Nat.zero_add] at hi hc hbefore
    refine ⟨i, hi, ?_, ?_, fun j hj => ?_⟩
    · rw [parse_of_firstFault_eq_some hlen hfault, hc]
    · rw [fitsAt_iff, hc]
      exact fun h => hbad h.2
    · exact (fitsAt_iff _ _).2 ⟨by omega, hbefore j hj⟩

/-- An id drawn from 16 bytes is their lowercase hex, two digits a byte, in groups of 8, 4, 4,
4 and 12 digits joined by underscores, and different bytes give different ids. `FileId.parse`
accepts a text exactly when it is such an id, and then gives it back; otherwise it refuses a
text that has not 36 characters for its length, and any other for its first character that no
rendered id has at that position, naming the character and its position. -/
theorem parse_reads_exactly_rendered :
    (∀ bytes : Vector UInt8 16, (ofBytes bytes.toList).text.toList =
      hexOf (bytes.toList.take 4) ++ '_' :: hexOf ((bytes.toList.drop 4).take 2) ++ '_' ::
        hexOf ((bytes.toList.drop 6).take 2) ++ '_' :: hexOf ((bytes.toList.drop 8).take 2) ++
          '_' :: hexOf (bytes.toList.drop 10)) ∧
    (∀ bytes bytes' : Vector UInt8 16, ofBytes bytes.toList = ofBytes bytes'.toList →
      bytes = bytes') ∧
    ∀ s : String,
      (∀ id, parse s = .ok id → id = ⟨s⟩) ∧
      (parse s = .ok ⟨s⟩ ↔ ∃ bytes : Vector UInt8 16, ofBytes bytes.toList = ⟨s⟩) ∧
      (s.toList.length ≠ 36 → parse s = .error (.invalidLength s.toList.length)) ∧
      (s.toList.length = 36 → (¬∃ bytes : Vector UInt8 16, ofBytes bytes.toList = ⟨s⟩) →
        ∃ (i : Nat) (hi : i < s.toList.length),
          parse s = .error (.invalidCharacter s.toList[i] i) ∧ ¬FitsAt i s.toList[i] ∧
            ∀ (j : Nat) (hj : j < i), FitsAt j s.toList[j]) :=
  ⟨fun bytes => ofBytes_text bytes.length_toList,
    fun bytes bytes' h => Vector.toList_inj.1
      (ofBytes_injective bytes.length_toList bytes'.length_toList h),
    fun _ => ⟨fun _ => eq_of_parse_eq_ok, parse_eq_ok_iff _, parse_of_length_ne,
      parse_eq_invalidCharacter⟩⟩

end TypeReflection.FileId
