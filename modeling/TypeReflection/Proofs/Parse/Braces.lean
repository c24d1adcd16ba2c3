import TypeReflection.Proofs.Parse.Forward

/-!
# Brace depth, and the tokens a step passes over

The brace depth of a run of tokens counts the braces it opens and has not closed, and a run is
brace-balanced when no prefix of it closes a brace it did not open and the whole closes all it
opened. The body of a record is a balanced run between its `{` and the matching `}`.

A step of the parser *passes over* the tokens from where it started up to where it left the
cursor. The scans stop at reflection markers, so the member parsers pass over no marker, except
inside the braces of a method's inline body, which are skipped whole: every marker a member
read passes over lies inside braces opened after the read began (`markersNested_member`).
-/

set_option autoImplicit false

namespace TypeReflection

/-- How a token changes the depth of the brackets that `o` opens and `c` closes. -/
def Token.nestStep (o c : TokenKind) (t : Token) : Int :=
  if t.kind = o then 1 else if t.kind = c then -1 else 0

/-- The brackets of kinds `o` and `c` a run of tokens opens and does not close; negative when it
closes more than it opens. -/
def Token.nestDepth (o c : TokenKind) : List Token → Int
  | [] => 0
  | t :: ts => t.nestStep o c + Token.nestDepth o c ts

/-- How a token changes the brace depth: `{` opens a brace and `}` closes one. -/
abbrev Token.braceStep : Token → Int := Token.nestStep .leftBrace .rightBrace

/-- The braces a run of tokens opens and does not close. -/
abbrev Token.braceDepth : List Token → Int := Token.nestDepth .leftBrace .rightBrace

namespace Token

/-- A token that is no reflection marker. -/
def NotMarker (t : Token) : Prop := t.kind.isMarker = false

variable (o c : TokenKind)

@[simp] theorem nestDepth_nil : nestDepth o c [] = 0 := rfl

@[simp] theorem nestDepth_cons (t : Token) (ts : List Token) :
    nestDepth o c (t :: ts) = t.nestStep o c + nestDepth o c ts := rfl

@[simp] theorem nestDepth_append (ts us : List Token) :
    nestDepth o c (ts ++ us) = nestDepth o c ts + nestDepth o c us := by
  induction ts with
  | nil => simp
  | cons t ts ih =>
    rw [List.cons_append, nestDepth_cons, nestDepth_cons, ih]
    omega

theorem nestStep_of_ne {t : Token} (ho : t.kind ≠ o) (hc : t.kind ≠ c) : t.nestStep o c = 0 := by
  simp [nestStep, ho, hc]

end Token

namespace ParseInput

variable (input : ParseInput)

/-- The braces opened and not closed by the tokens from index `lo` up to `hi`, `hi` left out. -/
def braceDepth (lo hi : Nat) : Int := Token.braceDepth (input.slice lo hi)

/-- The tokens from index `lo` up to `hi` never close a brace they did not open, and close every
brace they open. -/
def BracesBalanced (lo hi : Nat) : Prop :=
  lo ≤ hi ∧ (∀ k < hi - lo, 0 ≤ input.braceDepth lo (lo + k)) ∧ input.braceDepth lo hi = 0

instance (lo hi : Nat) : Decidable (input.BracesBalanced lo hi) :=
  inferInstanceAs (Decidable (_ ∧ _ ∧ _))

theorem lastIndex_lt : input.lastIndex < input.tokens.size := by
  have := input.nonempty
  unfold lastIndex
  omega

theorem slice_eq (lo hi : Nat) : input.slice lo hi = (input.fromIndex lo).take (hi - lo) := by
  simp [slice, fromIndex, Array.toList_extract, List.extract_eq_take_drop]

theorem length_fromIndex (i : Nat) : (input.fromIndex i).length = input.tokens.size - i := by
  simp [fromIndex]

theorem tokenAt_of_lt {i : Nat} (h : i < input.tokens.size) : input.tokenAt i = input.tokens[i] := by
  simp only [tokenAt, lastIndex]
  congr
  omega

theorem fromIndex_eq_cons {i : Nat} (h : i < input.tokens.size) :
    input.fromIndex i = input.tokenAt i :: input.fromIndex (i + 1) := by
  rw [fromIndex, List.drop_eq_getElem_cons (by simpa using h), input.tokenAt_of_lt h]
  simp [fromIndex]

theorem slice_append {lo mid hi : Nat} (h₁ : lo ≤ mid) (h₂ : mid ≤ hi) :
    input.slice lo hi = input.slice lo mid ++ input.slice mid hi := by
  rw [slice_eq, slice_eq, slice_eq, show hi - lo = (mid - lo) + (hi - mid) by omega, List.take_add]
  simp only [fromIndex, List.drop_drop]
  congr 3
  omega

theorem slice_succ {lo hi : Nat} (h₁ : lo ≤ hi) (h₂ : hi < input.tokens.size) :
    input.slice lo (hi + 1) = input.slice lo hi ++ [input.tokenAt hi] := by
  rw [input.slice_append h₁ (Nat.le_succ hi), input.slice_eq hi, input.fromIndex_eq_cons h₂]
  simp

@[simp] theorem slice_self (lo : Nat) : input.slice lo lo = [] := by
  simp [slice_eq]

@[simp] theorem braceDepth_self (lo : Nat) : input.braceDepth lo lo = 0 := by
  simp [braceDepth]

theorem braceDepth_add {lo mid hi : Nat} (h₁ : lo ≤ mid) (h₂ : mid ≤ hi) :
    input.braceDepth lo hi = input.braceDepth lo mid + input.braceDepth mid hi := by
  simp [braceDepth, input.slice_append h₁ h₂]

theorem braceDepth_succ {lo hi : Nat} (h₁ : lo ≤ hi) (h₂ : hi < input.tokens.size) :
    input.braceDepth lo (hi + 1) = input.braceDepth lo hi + (input.tokenAt hi).braceStep := by
  simp [braceDepth, input.slice_succ h₁ h₂]

variable {input}

/-- A prefix of a balanced run never closes more braces than it opened. -/
theorem BracesBalanced.nonneg {lo hi : Nat} (h : input.BracesBalanced lo hi) {k : Nat}
    (h₁ : lo ≤ k) (h₂ : k ≤ hi) : 0 ≤ input.braceDepth lo k := by
  rcases Nat.lt_or_eq_of_le h₂ with hlt | rfl
  · have := h.2.1 (k - lo) (by omega)
    rwa [show lo + (k - lo) = k by omega] at this
  · exact Int.le_of_eq h.2.2.symm

theorem tokenAt_mem_slice {a b x : Nat} (h₁ : a ≤ x) (h₂ : x < b) (h₃ : x < input.tokens.size) :
    input.tokenAt x ∈ input.slice a b := by
  obtain ⟨k, hk⟩ : ∃ k, b - x = k + 1 := ⟨b - x - 1, by omega⟩
  rw [input.slice_append h₁ (Nat.le_of_lt h₂), input.slice_eq x b, input.fromIndex_eq_cons h₃, hk]
  simp

/-- A fact about every token a scan from `lo` read up to `hi`, read off at an index. -/
theorem forall_tokenAt_of_take {P : Token → Prop} {lo hi : Nat}
    (h : ∀ t ∈ (input.fromIndex lo).take (hi - lo), P t) {y : Nat} (h₁ : lo ≤ y) (h₂ : y < hi)
    (h₃ : y < input.tokens.size) : P (input.tokenAt y) :=
  h _ (by rw [← input.slice_eq]; exact input.tokenAt_mem_slice h₁ h₂ h₃)

end ParseInput

namespace Scan

theorem mem_take_cons {t x : Token} {ts : List Token} {n : Nat} (h : x ∈ (t :: ts).take n) :
    x = t ∨ x ∈ ts.take (n - 1) := by
  cases n with
  | zero => simp at h
  | succ n => simpa using h

/-- Where the tokens a scan reads end: past the token it was looking for, or at the token that
cut it short. -/
def Stop.after : Stop → Nat
  | .found i => i + 1
  | .cut i => i

/-- One step of a property scan: it finds its `;` in the first token, is cut short there, or
passes it, a non-marker, and goes on from the next index. -/
theorem scanProperty_cons (t : Token) (ts : List Token) (i depth : Nat) (boundary : Option Nat) :
    (scanProperty (t :: ts) i depth boundary).1 = .found i ∧ t.kind = .semicolon ∨
      (scanProperty (t :: ts) i depth boundary).1 = .cut i ∨
      t.NotMarker ∧ ∃ d b, scanProperty (t :: ts) i depth boundary = scanProperty ts (i + 1) d b := by
  simp only [scanProperty]
  split
  · next hk => exact .inl ⟨rfl, hk⟩
  · exact .inr (.inl rfl)
  · next hk => exact .inr (.inr ⟨by simp [Token.NotMarker, hk, TokenKind.isMarker], _, _, rfl⟩)
  · next hk => exact .inr (.inr ⟨by simp [Token.NotMarker, hk, TokenKind.isMarker], _, _, rfl⟩)
  · next hk => exact .inr (.inr ⟨by simp [Token.NotMarker, hk, TokenKind.isMarker], _, _, rfl⟩)
  · split
    · exact .inr (.inl rfl)
    · next hk => exact .inr (.inr ⟨by simpa [Token.NotMarker] using hk, _, _, rfl⟩)

/-- A property scan passes over no marker, up to and including the `;` it finds. -/
theorem scanProperty_passes (ts : List Token) (i depth : Nat) (boundary : Option Nat) :
    ∀ t ∈ ts.take ((scanProperty ts i depth boundary).1.after - i), t.NotMarker := by
  induction ts generalizing i depth boundary with
  | nil => simp [scanProperty, Stop.after]
  | cons t ts ih =>
    intro x hx
    rcases scanProperty_cons t ts i depth boundary with ⟨hstop, hsemi⟩ | hstop | ⟨ht, d, b, heq⟩
    · rw [hstop] at hx
      simp only [Stop.after, Nat.add_sub_cancel_left, List.take_succ_cons, List.take_zero,
        List.mem_singleton] at hx
      rw [hx]
      simp [Token.NotMarker, hsemi, TokenKind.isMarker]
    · rw [hstop] at hx
      simp [Stop.after] at hx
    · rw [heq] at hx
      have hle := le_index_scanProperty ts (i + 1) d b
      have : (scanProperty ts (i + 1) d b).1.index ≤ (scanProperty ts (i + 1) d b).1.after := by
        cases (scanProperty ts (i + 1) d b).1 <;> simp [Stop.after]
      rcases mem_take_cons hx with rfl | hx
      · exact ht
      · exact ih (i + 1) d b x (by rwa [show (scanProperty ts (i + 1) d b).1.after - i - 1 =
          (scanProperty ts (i + 1) d b).1.after - (i + 1) by omega] at hx)

/-- One step of a method scan: it stops at the first token, or passes it, a non-marker, and
goes on from the next index. -/
theorem scanMethod_cons (t : Token) (ts : List Token) (i depth : Nat) :
    (scanMethod (t :: ts) i depth).index = i ∨
      t.NotMarker ∧ ∃ d, scanMethod (t :: ts) i depth = scanMethod ts (i + 1) d := by
  cases hm : t.kind.isMarker with
  | true =>
    -- a marker is none of the kinds the scan treats apart, so it cuts the scan
    left
    simp only [scanMethod]
    split <;> simp_all [TokenKind.isMarker]
  | false =>
    simp only [scanMethod]
    split <;> (try split) <;> first | exact .inl rfl | exact .inr ⟨hm, _, rfl⟩

/-- A method scan passes over no marker. -/
theorem scanMethod_passes (ts : List Token) (i depth : Nat) :
    ∀ t ∈ ts.take ((scanMethod ts i depth).index - i), t.NotMarker := by
  induction ts generalizing i depth with
  | nil => simp [scanMethod]
  | cons t ts ih =>
    intro x hx
    rcases scanMethod_cons t ts i depth with hstop | ⟨ht, d, heq⟩
    · rw [hstop] at hx
      simp at hx
    · rw [heq] at hx
      have := le_index_scanMethod ts (i + 1) d
      rcases mem_take_cons hx with rfl | hx
      · exact ht
      · exact ih (i + 1) d x (by rwa [show (scanMethod ts (i + 1) d).index - i - 1 =
          (scanMethod ts (i + 1) d).index - (i + 1) by omega] at hx)

/-- One step of a scan for `target`: it finds it in the first token, is cut short there, or
passes a token that neither is the target nor stops it. -/
theorem scanTo_cons (target : TokenKind) (stops : TokenKind → Bool) (t : Token) (ts : List Token)
    (i : Nat) :
    scanTo target stops (t :: ts) i = .found i ∧ t.kind = target ∨
      scanTo target stops (t :: ts) i = .cut i ∨
      stops t.kind = false ∧ scanTo target stops (t :: ts) i = scanTo target stops ts (i + 1) := by
  simp only [scanTo]
  split
  · next hk => exact .inl ⟨rfl, by simpa using hk⟩
  · split
    · exact .inr (.inl rfl)
    · next hk => exact .inr (.inr ⟨by simpa using hk, rfl⟩)

/-- A scan for `target` passes over tokens that do not stop it, up to and including the target
it finds. -/
theorem scanTo_passes (target : TokenKind) (stops : TokenKind → Bool) (ts : List Token) (i : Nat) :
    ∀ t ∈ ts.take ((scanTo target stops ts i).after - i), t.kind = target ∨ stops t.kind = false := by
  induction ts generalizing i with
  | nil => simp [scanTo, Stop.after]
  | cons t ts ih =>
    intro x hx
    rcases scanTo_cons target stops t ts i with ⟨hstop, hk⟩ | hstop | ⟨ht, heq⟩
    · rw [hstop] at hx
      simp only [Stop.after, Nat.add_sub_cancel_left, List.take_succ_cons, List.take_zero,
        List.mem_singleton] at hx
      exact .inl (hx ▸ hk)
    · rw [hstop] at hx
      simp [Stop.after] at hx
    · rw [heq] at hx
      have hle := le_index_scanTo target stops ts (i + 1)
      have : (scanTo target stops ts (i + 1)).index ≤ (scanTo target stops ts (i + 1)).after := by
        cases scanTo target stops ts (i + 1) <;> simp [Stop.after]
      rcases mem_take_cons hx with rfl | hx
      · exact .inr ht
      · exact ih (i + 1) x (by rwa [show (scanTo target stops ts (i + 1)).after - i - 1 =
          (scanTo target stops ts (i + 1)).after - (i + 1) by omega] at hx)

/-- One step of a brace scan: it finds the closing brace in the first token, is cut short by the
end of input there, or passes the token with the depth changed by it, never below one. -/
theorem scanBraces_cons (t : Token) (ts : List Token) (i depth : Nat) (h : 1 ≤ depth) :
    (scanBraces (t :: ts) i depth).index = i ∨
      ∃ d : Nat, 1 ≤ d ∧ (d : Int) = depth + t.braceStep ∧
        scanBraces (t :: ts) i depth = scanBraces ts (i + 1) d := by
  simp only [scanBraces]
  split
  · next hk => exact .inr ⟨depth + 1, by omega, by simp [Token.nestStep, hk], rfl⟩
  · next hk =>
    split
    · exact .inl rfl
    · next hd =>
      refine .inr ⟨depth - 1, ?_, ?_, rfl⟩
      · simp only [beq_iff_eq] at hd
        omega
      · simp only [beq_iff_eq] at hd
        simp only [Token.braceStep, Token.nestStep, hk]
        simp
        omega
  · exact .inl rfl
  · next hk₁ hk₂ hk₃ =>
    refine .inr ⟨depth, h, ?_, rfl⟩
    rw [Token.braceStep, Token.nestStep_of_ne _ _ hk₁ hk₂]
    omega

/-- From depth one or more, a brace scan stays at depth one or more before every token it
reads, up to the closing brace it stops on. -/
theorem scanBraces_depth (ts : List Token) (i depth : Nat) (h : 1 ≤ depth) :
    ∀ k ≤ (scanBraces ts i depth).index - i, 1 ≤ (depth : Int) + Token.braceDepth (ts.take k) := by
  induction ts generalizing i depth with
  | nil =>
    intro k hk
    simp [scanBraces] at hk
    subst hk
    simp only [List.take_zero, Token.nestDepth_nil]
    omega
  | cons t ts ih =>
    intro k hk
    rcases scanBraces_cons t ts i depth h with hstop | ⟨d, hd, hstep, heq⟩
    · rw [hstop, Nat.sub_self, Nat.le_zero] at hk
      subst hk
      simp only [List.take_zero, Token.nestDepth_nil]
      omega
    · rw [heq] at hk
      cases k with
      | zero =>
        simp only [List.take_zero, Token.nestDepth_nil]
        omega
      | succ k =>
        have := ih (i + 1) d hd k (by omega)
        simp only [Token.braceStep, Token.braceDepth] at hstep this ⊢
        simp only [List.take_succ_cons, Token.nestDepth_cons]
        omega

/-! ## The backward scan to a matching opener -/

section Matching

variable (tokens : Array Token) (o c : TokenKind)

theorem extract_toList_cons {m top : Nat} (h₁ : m ≤ top) (h₂ : top < tokens.size) :
    (tokens.extract m (top + 1)).toList = tokens[m] :: (tokens.extract (m + 1) (top + 1)).toList := by
  simp only [Array.toList_extract, List.extract_eq_take_drop]
  rw [List.drop_eq_getElem_cons (by simp; omega), show top + 1 - m = (top + 1 - (m + 1)) + 1 by omega,
    List.take_succ_cons]
  simp

/-- The depth of the run from `m` to `top` read one token at a time from its front. -/
theorem nestDepth_extract_cons {m top : Nat} (h₁ : m ≤ top) (h₂ : top < tokens.size) :
    Token.nestDepth o c (tokens.extract m (top + 1)).toList =
      tokens[m].nestStep o c + Token.nestDepth o c (tokens.extract (m + 1) (top + 1)).toList := by
  rw [extract_toList_cons tokens h₁ h₂, Token.nestDepth_cons]

variable {tokens o c}

section Invariant

variable {top : Nat} (htop : top < tokens.size) (hc : tokens[top].kind = c) (hoc : o ≠ c)
include htop hc hoc

/-- One step of the backward scan from a closer at `top`, at an index `i` where the count `d`
of open closers is what the run after `i` leaves open, and every run from past `i` leaves one
open. Either the token at `i` is the opener that balances the run, or the scan goes on with
the count of the run from `i`, which still leaves one open. -/
theorem matchingOpen_step {i d : Nat} (hi : i ≤ top)
    (hd : (d : Int) = -Token.nestDepth o c (tokens.extract (i + 1) (top + 1)).toList)
    (hopen : ∀ m, i < m → m ≤ top → Token.nestDepth o c (tokens.extract m (top + 1)).toList < 0) :
    matchingOpen tokens o c i d = some i ∧ tokens[i].kind = o ∧
        Token.nestDepth o c (tokens.extract i (top + 1)).toList = 0 ∨
      ∃ d' : Nat, (d' : Int) = -Token.nestDepth o c (tokens.extract i (top + 1)).toList ∧
        Token.nestDepth o c (tokens.extract i (top + 1)).toList < 0 ∧
        matchingOpen tokens o c i d = if i = 0 then none else matchingOpen tokens o c (i - 1) d' := by
  have hsize : i < tokens.size := by omega
  have hcons := nestDepth_extract_cons tokens o c hi htop
  -- before the closer at `top`, the run after `i` leaves a closer open
  have hpos : tokens[i].kind ≠ c → 1 ≤ d := by
    intro hkc
    rcases Nat.lt_or_eq_of_le hi with hlt | rfl
    · have := hopen (i + 1) (by omega) (by omega)
      omega
    · exact absurd hc hkc
  rw [matchingOpen.eq_def]
  simp only [getElem?_pos tokens i hsize, Option.map_some]
  by_cases hkc : tokens[i].kind = c
  · have hstep : tokens[i].nestStep o c = -1 := by simp [Token.nestStep, hkc, Ne.symm hoc]
    refine .inr ⟨d + 1, by omega, by omega, ?_⟩
    cases i <;> simp [hkc]
  by_cases hko : tokens[i].kind = o
  · have hstep : tokens[i].nestStep o c = 1 := by simp [Token.nestStep, hko]
    have := hpos hkc
    by_cases hd1 : d = 1
    · subst hd1
      exact .inl ⟨by simp [hko, hoc], hko, by omega⟩
    · refine .inr ⟨d - 1, by omega, by omega, ?_⟩
      cases i <;> simp [hko, hoc, show d - 1 ≠ 0 by omega]
  · have hstep : tokens[i].nestStep o c = 0 := Token.nestStep_of_ne o c hko hkc
    have := hpos hkc
    refine .inr ⟨d, by omega, by omega, ?_⟩
    cases i <;> simp [hko, hkc]

/-- The backward scan from a closer at `top` stops at the opener that matches it: the run from
there to `top` is balanced and no shorter run ending at `top` is, so the count of open closers
never falls below zero on the way. -/
theorem matchingOpen_matches (i d j : Nat) (hi : i ≤ top)
    (hd : (d : Int) = -Token.nestDepth o c (tokens.extract (i + 1) (top + 1)).toList)
    (hopen : ∀ m, i < m → m ≤ top → Token.nestDepth o c (tokens.extract m (top + 1)).toList < 0)
    (h : matchingOpen tokens o c i d = some j) :
    j ≤ i ∧ tokens[j]?.map (·.kind) = some o ∧
      Token.nestDepth o c (tokens.extract j (top + 1)).toList = 0 ∧
      ∀ m, j < m → m ≤ top → Token.nestDepth o c (tokens.extract m (top + 1)).toList < 0 := by
  -- the scan walks down from `i`; the invariant of `matchingOpen_step` carries it
  induction i generalizing d with
  | zero =>
    rcases matchingOpen_step htop hc hoc hi hd hopen with ⟨heq, hk, hz⟩ | ⟨d', -, -, heq⟩
    · rw [heq, Option.some_inj] at h
      subst h
      exact ⟨Nat.le_refl 0, by simp [getElem?_pos tokens 0 (by omega), hk], hz, hopen⟩
    · simp [heq] at h
  | succ i ih =>
    rcases matchingOpen_step htop hc hoc hi hd hopen with ⟨heq, hk, hz⟩ | ⟨d', hd', hneg, heq⟩
    · rw [heq, Option.some_inj] at h
      subst h
      exact ⟨Nat.le_refl _, by simp [getElem?_pos tokens (i + 1) (by omega), hk], hz, hopen⟩
    · rw [heq] at h
      have hopen' : ∀ m, i < m → m ≤ top →
          Token.nestDepth o c (tokens.extract m (top + 1)).toList < 0 := by
        intro m hm hmt
        rcases Nat.lt_or_eq_of_le (Nat.succ_le_of_lt hm) with hm | rfl
        · exact hopen m hm hmt
        · exact hneg
      obtain ⟨hj, hrest⟩ := ih d' (by omega) hd' hopen' h
      exact ⟨by omega, hrest⟩

end Invariant

/-- The backward scan from a closer at `top`, with no closer counted yet, stops before `top` at
the opener that matches it. -/
theorem matchingOpen_closer {top j : Nat} (htop : top < tokens.size) (hc : tokens[top].kind = c)
    (hoc : o ≠ c) (h : matchingOpen tokens o c top 0 = some j) :
    j < top ∧ Token.nestDepth o c (tokens.extract j (top + 1)).toList = 0 ∧
      ∀ m, j < m → m ≤ top → Token.nestDepth o c (tokens.extract m (top + 1)).toList < 0 := by
  obtain ⟨hj, hk, hz, hopen⟩ := matchingOpen_matches htop hc hoc top 0 j (Nat.le_refl top)
    (by simp) (fun m h₁ h₂ => absurd h₂ (Nat.not_le_of_lt h₁)) h
  -- the opener found is no closer, so it is not the token at `top`
  have hne : j ≠ top := by
    rintro rfl
    rw [getElem?_pos tokens j htop, Option.map_some, Option.some_inj, hc] at hk
    exact hoc hk.symm
  exact ⟨by omega, hz, hopen⟩

end Matching

/-- Stripping a declarator's trailing groups ends within the tokens it was given. -/
theorem stripGroups_le (tokens : Array Token) (index : Nat) (groups : List String) :
    (Parser.stripGroups tokens index groups).1 ≤ index := by
  fun_induction Parser.stripGroups tokens index groups with
  | case3 index _ _ _ _ _ _ _ openIndex _ hlt _ ih => exact Nat.le_trans ih (Nat.le_of_lt hlt)
  | _ => exact Nat.le_refl _

end Scan

namespace ParseInput

variable {input : ParseInput}

/-- From the `{` that opens a method's inline body, every token before the `}` the brace scan
stops on stands inside that brace: the depth counted from the `{` never drops below one. -/
theorem scanBraces_opens {b : Nat} (hb : b < input.tokens.size)
    (hk : (input.tokenAt b).kind = .leftBrace) (x : Nat) (h₁ : b < x)
    (h₂ : x ≤ (Scan.scanBraces (input.fromIndex b) b 0).index) : 1 ≤ input.braceDepth b x := by
  rw [input.fromIndex_eq_cons hb] at h₂
  simp only [Scan.scanBraces, hk, Nat.zero_add] at h₂
  have hdepth := Scan.scanBraces_depth (input.fromIndex (b + 1)) (b + 1) 1 (Nat.le_refl 1)
    (x - (b + 1)) (by omega)
  have hslice : input.slice b x = input.tokenAt b :: (input.fromIndex (b + 1)).take (x - (b + 1)) := by
    rw [input.slice_eq, input.fromIndex_eq_cons hb, show x - b = (x - (b + 1)) + 1 by omega,
      List.take_succ_cons]
  have hstep : (input.tokenAt b).braceStep = 1 := by simp [Token.nestStep, hk]
  simp only [Token.braceStep, Token.braceDepth] at hstep hdepth
  rw [braceDepth, hslice, Token.braceDepth, Token.nestDepth_cons, hstep]
  omega

end ParseInput

end TypeReflection
