import TypeReflection.Proofs.Parse.Follow
import Mathlib.Data.List.Forall2

/-!
# What a parse sees of its tokens

The forward scans, the spelling of types and bases, and the backward reads of a member look
only at the kinds and texts of tokens (their `Token.view`), never at where the tokens stand; and
a scan decides where it stops from the tokens up to that stop. So a scan over tokens that look
alike up to where it stops stops at the same place, counted from where it started
(`scanTo_follow` and its siblings), and the reads back from a member's end give the same answer
on arrays whose tokens look alike (`stripGroups_congr`, `matchingOpen_congr`).

`Relocation.Window.slice` supplies the tokens that look alike: those of a window stand moved,
one for one, in the target. These are the pure parts of each parser's simulation.
-/

set_option autoImplicit false

namespace TypeReflection

namespace Token

/-- Tokens look alike exactly when they have the same kind and text. -/
theorem view_eq_iff {t t' : Token} : t'.view = t.view ↔ t'.kind = t.kind ∧ t'.text = t.text := by
  simp [view]

/-- Lists whose first `n + 1` tokens look alike start with tokens that look alike. -/
theorem take_views_cons {t : Token} {ts lt : List Token} {n : Nat}
    (hv : (lt.take (n + 1)).map view = ((t :: ts).take (n + 1)).map view) :
    ∃ t' lt', lt = t' :: lt' ∧ t'.kind = t.kind ∧ t'.text = t.text ∧
      (lt'.take n).map view = (ts.take n).map view := by
  cases lt with
  | nil => simp at hv
  | cons t' lt' =>
    simp only [List.take_succ_cons, List.map_cons, List.cons.injEq] at hv
    exact ⟨t', lt', rfl, (view_eq_iff.1 hv.1).1, (view_eq_iff.1 hv.1).2, hv.2⟩

/-- A list whose first tokens look like those of the empty list is empty. -/
theorem take_views_nil {lt : List Token} {n : Nat} (hn : 0 < n)
    (hv : (lt.take n).map view = (([] : List Token).take n).map view) : lt = [] := by
  simpa [List.take_eq_nil_iff, Nat.pos_iff_ne_zero.1 hn] using hv

/-- Tokens that look alike spell alike after any token. -/
theorem spellAfter_congr {ts ts' : List Token} (h : ts'.map view = ts.map view)
    (prev : Option TokenKind) : spellAfter prev ts' = spellAfter prev ts := by
  induction ts generalizing ts' prev with
  | nil => simp_all
  | cons t ts ih =>
    obtain ⟨t', ts', rfl, hv, hvs⟩ := List.map_eq_cons_iff.1 h
    obtain ⟨hk, ht⟩ := view_eq_iff.1 hv
    simp only [spellAfter, hk, ht, ih hvs]

/-- Tokens that look alike spell alike. -/
theorem spell_congr {ts ts' : List Token} (h : ts'.map view = ts.map view) :
    spell ts' = spell ts :=
  spellAfter_congr h none

end Token

namespace Scan

/-- The stop of a scan read `off` places further on. -/
def Stop.shift (off : Nat) : Stop → Stop
  | .found i => .found (i + off)
  | .cut i => .cut (i + off)

/-- A scan that found its target, moved on, found it further on. -/
@[simp] theorem Stop.shift_found (off i : Nat) : (Stop.found i).shift off = .found (i + off) := rfl

/-- A scan cut short, moved on, was cut further on. -/
@[simp] theorem Stop.shift_cut (off i : Nat) : (Stop.cut i).shift off = .cut (i + off) := rfl

/-- A scan to a target over tokens that look alike up to its stop stops as far on, moved. -/
theorem scanTo_follow {target : TokenKind} {stops : TokenKind → Bool} {ls lt : List Token}
    {i n : Nat} (off : Nat) (hv : (lt.take n).map Token.view = (ls.take n).map Token.view)
    (hn : (scanTo target stops ls i).index < i + n) :
    scanTo target stops lt (i + off) = (scanTo target stops ls i).shift off := by
  induction ls generalizing lt i n with
  | nil =>
    rw [Token.take_views_nil (by simp [scanTo] at hn; omega) hv]
    rfl
  | cons t ts ih =>
    obtain ⟨n, rfl⟩ : ∃ m, n = m + 1 := ⟨n - 1, by have := le_index_scanTo target stops (t :: ts) i; omega⟩
    obtain ⟨t', lt', rfl, hk, -, hv⟩ := Token.take_views_cons hv
    by_cases h₁ : (t.kind == target) = true
    · simp [scanTo, hk, h₁]
    by_cases h₂ : stops t.kind = true
    · simp [scanTo, hk, h₁, h₂]
    simp only [scanTo, hk, h₁, h₂, Bool.false_eq_true, if_false] at hn ⊢
    rw [show i + off + 1 = i + 1 + off by omega]
    exact ih hv (by omega)

/-- The scan for a property's end over tokens that look alike up to its stop stops as far on. -/
theorem scanProperty_follow {ls lt : List Token} {i n depth : Nat} {boundary : Option Nat}
    (off : Nat) (hv : (lt.take n).map Token.view = (ls.take n).map Token.view)
    (hn : (scanProperty ls i depth boundary).1.index < i + n) :
    scanProperty lt (i + off) depth (boundary.map (· + off)) =
      ((scanProperty ls i depth boundary).1.shift off,
        (scanProperty ls i depth boundary).2.map (· + off)) := by
  induction ls generalizing lt i n depth boundary with
  | nil =>
    rw [Token.take_views_nil (by simp [scanProperty] at hn; omega) hv]
    rfl
  | cons t ts ih =>
    obtain ⟨n, rfl⟩ : ∃ m, n = m + 1 :=
      ⟨n - 1, by have := le_index_scanProperty (t :: ts) i depth boundary; omega⟩
    obtain ⟨t', lt', rfl, hk, -, hv⟩ := Token.take_views_cons hv
    have step : ∀ depth' boundary', (scanProperty ts (i + 1) depth' boundary').1.index < i + 1 + n →
        scanProperty lt' (i + off + 1) depth' (boundary'.map (· + off)) =
          ((scanProperty ts (i + 1) depth' boundary').1.shift off,
            (scanProperty ts (i + 1) depth' boundary').2.map (· + off)) := by
      intro depth' boundary' h
      rw [show i + off + 1 = i + 1 + off by omega]
      exact ih hv h
    simp only [scanProperty, hk] at hn ⊢
    split at hn
    · rfl
    · rfl
    · exact step _ _ (by omega)
    · exact step _ _ (by omega)
    · -- an `=` outside angle brackets is remembered at its own index, moved alike
      have hb : (if depth == 0 && (boundary.map (· + off)).isNone then some (i + off)
          else boundary.map (· + off)) =
          (if depth == 0 && boundary.isNone then some i else boundary).map (· + off) := by
        cases boundary <;> split <;> simp_all
      rw [hb]
      exact step _ _ (by omega)
    · split
      · rfl
      · next hm => exact step _ _ (by simp only [hm, Bool.false_eq_true, if_false] at hn; omega)

/-- The scan for a method's end over tokens that look alike up to its stop stops as far on. -/
theorem scanMethod_follow {ls lt : List Token} {i n depth : Nat} (off : Nat)
    (hv : (lt.take n).map Token.view = (ls.take n).map Token.view)
    (hn : (scanMethod ls i depth).index < i + n) :
    scanMethod lt (i + off) depth = (scanMethod ls i depth).shift off := by
  induction ls generalizing lt i n depth with
  | nil =>
    rw [Token.take_views_nil (by simp [scanMethod] at hn; omega) hv]
    rfl
  | cons t ts ih =>
    obtain ⟨n, rfl⟩ : ∃ m, n = m + 1 :=
      ⟨n - 1, by have := le_index_scanMethod (t :: ts) i depth; omega⟩
    obtain ⟨t', lt', rfl, hk, -, hv⟩ := Token.take_views_cons hv
    have step : ∀ depth', (scanMethod ts (i + 1) depth').index < i + (n + 1) →
        scanMethod lt' (i + off + 1) depth' = (scanMethod ts (i + 1) depth').shift off := by
      intro depth' h
      rw [show i + off + 1 = i + 1 + off by omega]
      exact ih hv (by omega)
    simp only [scanMethod, hk] at hn ⊢
    -- the three ends of a declarator, the end of input, parentheses, and the rest
    split at hn
    all_goals first
      | rfl
      | exact step _ hn
      | split
        · rfl
        · next hc => exact step _ (by simpa [hc] using hn)

/-- The scan past a brace group over tokens that look alike up to its stop stops as far on. -/
theorem scanBraces_follow {ls lt : List Token} {i n depth : Nat} (off : Nat)
    (hv : (lt.take n).map Token.view = (ls.take n).map Token.view)
    (hn : (scanBraces ls i depth).index < i + n) :
    scanBraces lt (i + off) depth = (scanBraces ls i depth).shift off := by
  induction ls generalizing lt i n depth with
  | nil =>
    rw [Token.take_views_nil (by simp [scanBraces] at hn; omega) hv]
    rfl
  | cons t ts ih =>
    obtain ⟨n, rfl⟩ : ∃ m, n = m + 1 :=
      ⟨n - 1, by have := le_index_scanBraces (t :: ts) i depth; omega⟩
    obtain ⟨t', lt', rfl, hk, -, hv⟩ := Token.take_views_cons hv
    have step : ∀ depth', (scanBraces ts (i + 1) depth').index < i + (n + 1) →
        scanBraces lt' (i + off + 1) depth' = (scanBraces ts (i + 1) depth').shift off := by
      intro depth' h
      rw [show i + off + 1 = i + 1 + off by omega]
      exact ih hv (by omega)
    simp only [scanBraces, hk] at hn ⊢
    split at hn
    · exact step _ hn
    · split
      · rfl
      · next hd => exact step _ (by simpa [hd] using hn)
    · rfl
    · exact step _ hn

/-! ### Scans stop within their tokens

A scan stops at the end of input at the latest, so on tokens that hold one it stops on one of
them. -/

/-- The start of a property's initializer, if any, lies before the `;` it ends at. -/
theorem scanProperty_boundary_le {ls : List Token} {i depth : Nat} {b₀ : Option Nat}
    (h₀ : ∀ x, b₀ = some x → x ≤ i) {b : Nat} (hb : (scanProperty ls i depth b₀).2 = some b) :
    b ≤ (scanProperty ls i depth b₀).1.index := by
  induction ls generalizing i depth b₀ with
  | nil => exact h₀ b hb
  | cons t ts ih =>
    have h₁ : ∀ x, b₀ = some x → x ≤ i + 1 := fun x hx => Nat.le_succ_of_le (h₀ x hx)
    simp only [scanProperty] at hb ⊢
    split at hb
    all_goals first
      | exact h₀ b hb
      | exact ih h₁ hb
      | split
        · next hm =>
          simp only [hm, if_true] at hb ⊢
          exact h₀ b hb
        · next hm =>
          simp only [hm, Bool.false_eq_true, if_false] at hb ⊢
          exact ih h₁ hb
      | refine ih (fun x hx => ?_) hb
        split at hx
        · cases hx; omega
        · exact h₁ x hx

/-- A scan to a target that stops at the end of input stops within tokens that hold one. -/
theorem scanTo_within {target : TokenKind} {stops : TokenKind → Bool} (hstop : stops .eof = true)
    {ls : List Token} (i : Nat) (h : ∃ t ∈ ls, t.kind = .eof) :
    (scanTo target stops ls i).index < i + ls.length := by
  induction ls generalizing i with
  | nil => simp at h
  | cons t ts ih =>
    by_cases ht : t.kind = .eof
    · simp only [scanTo, ht, hstop]
      split <;> simp
    · have hts : ∃ t ∈ ts, t.kind = .eof := by simpa [ht] using h
      have := ih (i + 1) hts
      simp only [scanTo]
      split
      · simp
      · split
        · simp
        · simp only [List.length_cons]; omega

/-- The scan for a property's end stops within tokens that hold the end of input. -/
theorem scanProperty_within {ls : List Token} (i depth : Nat) (boundary : Option Nat)
    (h : ∃ t ∈ ls, t.kind = .eof) :
    (scanProperty ls i depth boundary).1.index < i + ls.length := by
  induction ls generalizing i depth boundary with
  | nil => simp at h
  | cons t ts ih =>
    by_cases ht : t.kind = .eof
    · simp [scanProperty, ht]
    · have hts : ∃ t ∈ ts, t.kind = .eof := by simpa [ht] using h
      simp only [scanProperty, List.length_cons]
      split <;> (try split) <;> first | exact Nat.lt_of_lt_of_le (ih _ _ _ hts) (by omega) | simp

/-- The scan for a method's end stops within tokens that hold the end of input. -/
theorem scanMethod_within {ls : List Token} (i depth : Nat) (h : ∃ t ∈ ls, t.kind = .eof) :
    (scanMethod ls i depth).index < i + ls.length := by
  induction ls generalizing i depth with
  | nil => simp at h
  | cons t ts ih =>
    by_cases ht : t.kind = .eof
    · simp [scanMethod, ht]
    · have hts : ∃ t ∈ ts, t.kind = .eof := by simpa [ht] using h
      simp only [scanMethod, List.length_cons]
      split <;> (try split) <;> first | exact Nat.lt_of_lt_of_le (ih _ _ hts) (by omega) | simp

/-- The scan past a brace group stops within tokens that hold the end of input. -/
theorem scanBraces_within {ls : List Token} (i depth : Nat) (h : ∃ t ∈ ls, t.kind = .eof) :
    (scanBraces ls i depth).index < i + ls.length := by
  induction ls generalizing i depth with
  | nil => simp at h
  | cons t ts ih =>
    by_cases ht : t.kind = .eof
    · simp [scanBraces, ht]
    · have hts : ∃ t ∈ ts, t.kind = .eof := by simpa [ht] using h
      simp only [scanBraces, List.length_cons]
      split <;> (try split) <;> first | exact Nat.lt_of_lt_of_le (ih _ _ hts) (by omega) | simp

end Scan

namespace Parser

open Scan

/-- Whether a token names an access specifier depends only on how it looks. -/
theorem isAccessSpecifier_congr {t t' : Token} (h : t'.view = t.view) :
    isAccessSpecifier t' = isAccessSpecifier t := by
  obtain ⟨hk, ht⟩ := Token.view_eq_iff.1 h
  simp only [isAccessSpecifier, hk, ht]

/-- Adding a base spelled from tokens that look alike gives the same parents. -/
theorem withBase_congr {current current' : List Token} (parents : List String)
    (h : current'.map Token.view = current.map Token.view) :
    withBase parents current' = withBase parents current := by
  have hlen : current'.length = current.length := by simpa using congrArg List.length h
  have hspell : Token.spell current'.reverse = Token.spell current.reverse :=
    Token.spell_congr (by rw [List.map_reverse, List.map_reverse, h])
  simp only [withBase, List.isEmpty_iff_length_eq_zero, hlen, hspell]

/-- The scan of base classes over tokens that look alike up to its stop stops as far on. -/
theorem scanBases_follow {ls lt : List Token} {i n depth : Nat} {current current' : List Token}
    {parents : List String} (off : Nat) (hv : (lt.take n).map Token.view = (ls.take n).map Token.view)
    (hc : current'.map Token.view = current.map Token.view)
    (hn : (scanBases ls i depth current parents).1.index < i + n) :
    scanBases lt (i + off) depth current' parents =
      ((scanBases ls i depth current parents).1.shift off, (scanBases ls i depth current parents).2) := by
  induction ls generalizing lt i n depth current current' parents with
  | nil =>
    rw [Token.take_views_nil (by simp [scanBases] at hn; omega) hv]
    rfl
  | cons t ts ih =>
    obtain ⟨n, rfl⟩ : ∃ m, n = m + 1 :=
      ⟨n - 1, by have := le_index_scanBases (t :: ts) i depth current parents; omega⟩
    obtain ⟨t', lt', rfl, hk, htext, hv⟩ := Token.take_views_cons hv
    have hview : t'.view = t.view := Token.view_eq_iff.2 ⟨hk, htext⟩
    have step : ∀ depth' cur cur' parents', cur'.map Token.view = cur.map Token.view →
        (scanBases ts (i + 1) depth' cur parents').1.index < i + (n + 1) →
        scanBases lt' (i + off + 1) depth' cur' parents' =
          ((scanBases ts (i + 1) depth' cur parents').1.shift off,
            (scanBases ts (i + 1) depth' cur parents').2) := by
      intro depth' cur cur' parents' hcur h
      rw [show i + off + 1 = i + 1 + off by omega]
      exact ih hv hcur (by omega)
    -- the base being read grows by the same token on both sides
    have hgrow : (if isAccessSpecifier t' then current' else t' :: current').map Token.view =
        (if isAccessSpecifier t then current else t :: current).map Token.view := by
      rw [isAccessSpecifier_congr hview]
      split <;> simp [hc, hview]
    simp only [scanBases, hk] at hn ⊢
    split at hn
    all_goals first
      | rfl
      | exact step _ _ _ _ hgrow hn
      | rw [withBase_congr parents hc, Stop.shift_found]
      | split
        · next hd =>
          rw [withBase_congr parents hc]
          exact step _ _ _ _ rfl (by simpa [hd] using hn)
        · next hd => exact step _ _ _ _ hgrow (by simpa [hd] using hn)
      | split
        · rfl
        · next hm => exact step _ _ _ _ hgrow (by simpa [hm] using hn)

/-- The run of names a record or enum reads looks alike wherever its tokens look alike. -/
theorem takeWhile_follow {ls lt : List Token} {n : Nat}
    (hv : (lt.take n).map Token.view = (ls.take n).map Token.view)
    (hn : (ls.takeWhile (·.kind == .identifier)).length < n) :
    (lt.takeWhile (·.kind == .identifier)).map Token.view =
      (ls.takeWhile (·.kind == .identifier)).map Token.view := by
  induction ls generalizing lt n with
  | nil => rw [Token.take_views_nil (by simpa using hn) hv]
  | cons t ts ih =>
    obtain ⟨n, rfl⟩ : ∃ m, n = m + 1 := ⟨n - 1, by omega⟩
    obtain ⟨t', lt', rfl, hk, htext, hv⟩ := Token.take_views_cons hv
    by_cases hid : (t.kind == .identifier) = true
    · simp only [List.takeWhile_cons, hk, hid, if_true, List.map_cons, List.length_cons] at hn ⊢
      rw [Token.view_eq_iff.2 ⟨hk, htext⟩, ih hv (by omega)]
    · simp [hk, hid]

/-- The kinds along arrays whose tokens look alike. -/
theorem kind_getElem?_congr {a a' : Array Token} (h : a'.toList.map Token.view = a.toList.map Token.view)
    (i : Nat) : a'[i]?.map (·.kind) = a[i]?.map (·.kind) := by
  have := congrArg (·[i]?) h
  simp only [List.getElem?_map, Array.getElem?_toList] at this
  cases ha : a[i]? <;> cases ha' : a'[i]? <;> simp_all [Token.view]

/-- The backward search for a matching opener reads only how the tokens look. -/
theorem matchingOpen_congr {a a' : Array Token} (h : a'.toList.map Token.view = a.toList.map Token.view)
    (openKind closeKind : TokenKind) (i depth : Nat) :
    matchingOpen a' openKind closeKind i depth = matchingOpen a openKind closeKind i depth := by
  induction i generalizing depth with
  | zero => simp only [matchingOpen, kind_getElem?_congr h]
  | succ i ih => simp only [matchingOpen, kind_getElem?_congr h, ih]

/-- Slices of arrays whose tokens look alike look alike. -/
theorem extract_views {a a' : Array Token} (h : a'.toList.map Token.view = a.toList.map Token.view)
    (lo hi : Nat) : (a'.extract lo hi).toList.map Token.view = (a.extract lo hi).toList.map Token.view := by
  simp only [Array.toList_extract, List.extract_eq_take_drop, List.map_take, List.map_drop, h]

/-- Stripping trailing groups reads only how the tokens look. -/
theorem stripGroups_congr {a a' : Array Token} (h : a'.toList.map Token.view = a.toList.map Token.view)
    (index : Nat) (groups : List String) : stripGroups a' index groups = stripGroups a index groups := by
  induction index using Nat.strongRecOn generalizing groups with
  | _ index ih =>
    rw [stripGroups, stripGroups]
    simp +contextual only [kind_getElem?_congr h, matchingOpen_congr h,
      Token.spell_congr (extract_views h _ _), ih]

/-- The scan of base classes stops within tokens that hold the end of input. -/
theorem scanBases_within {ls : List Token} (i depth : Nat) (current : List Token)
    (parents : List String) (h : ∃ t ∈ ls, t.kind = .eof) :
    (scanBases ls i depth current parents).1.index < i + ls.length := by
  induction ls generalizing i depth current parents with
  | nil => simp at h
  | cons t ts ih =>
    by_cases ht : t.kind = .eof
    · simp [scanBases, ht]
    · have hts : ∃ t ∈ ts, t.kind = .eof := by simpa [ht] using h
      simp only [scanBases, List.length_cons]
      split <;> (try split) <;> first | exact Nat.lt_of_lt_of_le (ih _ _ _ _ hts) (by omega) | simp

/-- The run of names at the front stops before the end of input. -/
theorem takeWhile_within {ls : List Token} (h : ∃ t ∈ ls, t.kind = .eof) :
    (ls.takeWhile (·.kind == .identifier)).length < ls.length := by
  induction ls with
  | nil => simp at h
  | cons t ts ih =>
    by_cases ht : t.kind = .eof
    · simp [ht]
    · have hts : ∃ t ∈ ts, t.kind = .eof := by simpa [ht] using h
      have := ih hts
      by_cases hid : (t.kind == .identifier) = true
      · simp only [List.takeWhile_cons, hid, if_true, List.length_cons]; omega
      · simp [hid]

end Parser

/-- Moved tokens look like the tokens they were moved from. -/
theorem Token.views_of_moved {δ : Shift} {l l' : List Token} (h : List.Forall₂ (Token.Moved δ) l l') :
    l'.map Token.view = l.map Token.view := by
  induction h with
  | nil => rfl
  | cons hm _ ih => simp only [List.map_cons, hm.view, ih]

/-- A slice that is not empty starts with its first token. -/
theorem ParseInput.slice_cons (input : ParseInput) {a b : Nat} (h₁ : a < b) (h₂ : a < input.tokens.size) :
    input.slice a b = input.tokenAt a :: input.slice (a + 1) b := by
  obtain ⟨k, hk⟩ : ∃ k, b - a = k + 1 := ⟨b - a - 1, by omega⟩
  rw [input.slice_eq, input.slice_eq, input.fromIndex_eq_cons h₂, hk, List.take_succ_cons]
  congr 2
  omega

/-- Moved lists hold moved tokens at each index. -/
theorem Token.getElem?_moved {δ : Shift} {l l' : List Token} (h : List.Forall₂ (Token.Moved δ) l l')
    (i : Nat) : Option.Rel (Token.Moved δ) l[i]? l'[i]? := by
  induction h generalizing i with
  | nil => exact .none
  | cons hm _ ih =>
    cases i with
    | zero => exact .some hm
    | succ i => exact ih i

/-- Tokens that end with the end of input hold one from every index on a token. -/
theorem ParseInput.exists_eof_fromIndex {input : ParseInput} (hin : input.EndsWithEof) {i : Nat}
    (hi : i ≤ input.lastIndex) : ∃ t ∈ input.fromIndex i, t.kind = .eof := by
  have hlt := input.lastIndex_lt
  have hmem := input.tokenAt_mem_slice hi hlt hlt
  rw [input.slice_eq] at hmem
  exact ⟨_, List.mem_of_mem_take hmem, hin⟩

namespace Relocation

variable {ρ : Relocation}

/-- The tokens of a window stand moved, one for one, in the target. -/
theorem Window.slice {lo hi : Nat} (h : ρ.Window lo hi) (hhi : hi ≤ ρ.source.lastIndex) {a b : Nat}
    (ha : lo ≤ a) (hb : b ≤ hi + 1) :
    List.Forall₂ (Token.Moved ρ.shift) (ρ.source.slice a b)
      (ρ.target.slice (a + ρ.offset) (b + ρ.offset)) := by
  have hs := ρ.source.lastIndex_lt
  have ht := ρ.target.lastIndex_lt
  have hw := h.within
  induction hk : b - a generalizing a with
  | zero =>
    rw [ρ.source.slice_eq, ρ.target.slice_eq, hk, show b + ρ.offset - (a + ρ.offset) = 0 by omega]
    exact .nil
  | succ k ih =>
    rw [ρ.source.slice_cons (by omega) (by omega), ρ.target.slice_cons (by omega) (by omega),
      show a + ρ.offset + 1 = a + 1 + ρ.offset by omega]
    exact .cons (h.token ha (by omega)) (ih (by omega) (by omega))

/-- The tokens a scan from `a` reads within a window look alike in the target. -/
theorem Window.fromIndex_views {lo hi : Nat} (h : ρ.Window lo hi) (hhi : hi ≤ ρ.source.lastIndex)
    {a n : Nat} (ha : lo ≤ a) (hn : a + n ≤ hi + 1) :
    ((ρ.target.fromIndex (a + ρ.offset)).take n).map Token.view =
      ((ρ.source.fromIndex a).take n).map Token.view := by
  have := Token.views_of_moved (h.slice hhi ha hn)
  rwa [ρ.source.slice_eq, ρ.target.slice_eq, show a + n - a = n by omega,
    show a + n + ρ.offset - (a + ρ.offset) = n by omega] at this

/-! ### Scans within a window

Once a window reaches the token a scan of the source stops on, the scan of the target from the
moved cursor stops on the moved token, with the same findings. -/

section Scans

open TypeReflection.Scan TypeReflection.Parser

variable {start k : Nat} (hw : ρ.Window start k) (hkl : k ≤ ρ.source.lastIndex)
include hw hkl

/-- Within a window, a scan to a target in the target stops on the moved stop. -/
theorem Window.scanTo_eq {target : TokenKind} {stops : TokenKind → Bool}
    (hk : (scanTo target stops (ρ.source.fromIndex start) start).index ≤ k) :
    scanTo target stops (ρ.target.fromIndex (start + ρ.offset)) (start + ρ.offset) =
      (scanTo target stops (ρ.source.fromIndex start) start).shift ρ.offset := by
  have := le_index_scanTo target stops (ρ.source.fromIndex start) start
  exact scanTo_follow ρ.offset (hw.fromIndex_views hkl (Nat.le_refl start) (n := k - start + 1)
    (by omega)) (by omega)

/-- Within a window, the scan for a property's end in the target stops on the moved stop. -/
theorem Window.scanProperty_eq {depth : Nat} {boundary : Option Nat}
    (hk : (scanProperty (ρ.source.fromIndex start) start depth boundary).1.index ≤ k) :
    scanProperty (ρ.target.fromIndex (start + ρ.offset)) (start + ρ.offset) depth
        (boundary.map (· + ρ.offset)) =
      ((scanProperty (ρ.source.fromIndex start) start depth boundary).1.shift ρ.offset,
        (scanProperty (ρ.source.fromIndex start) start depth boundary).2.map (· + ρ.offset)) := by
  have := le_index_scanProperty (ρ.source.fromIndex start) start depth boundary
  exact scanProperty_follow ρ.offset (hw.fromIndex_views hkl (Nat.le_refl start)
    (n := k - start + 1) (by omega)) (by omega)

/-- Within a window, the scan for a method's end in the target stops on the moved stop. -/
theorem Window.scanMethod_eq {depth : Nat}
    (hk : (scanMethod (ρ.source.fromIndex start) start depth).index ≤ k) :
    scanMethod (ρ.target.fromIndex (start + ρ.offset)) (start + ρ.offset) depth =
      (scanMethod (ρ.source.fromIndex start) start depth).shift ρ.offset := by
  have := le_index_scanMethod (ρ.source.fromIndex start) start depth
  exact scanMethod_follow ρ.offset (hw.fromIndex_views hkl (Nat.le_refl start)
    (n := k - start + 1) (by omega)) (by omega)

/-- Within a window, the scan past a brace group in the target stops on the moved stop. -/
theorem Window.scanBraces_eq {depth : Nat}
    (hk : (scanBraces (ρ.source.fromIndex start) start depth).index ≤ k) :
    scanBraces (ρ.target.fromIndex (start + ρ.offset)) (start + ρ.offset) depth =
      (scanBraces (ρ.source.fromIndex start) start depth).shift ρ.offset := by
  have := le_index_scanBraces (ρ.source.fromIndex start) start depth
  exact scanBraces_follow ρ.offset (hw.fromIndex_views hkl (Nat.le_refl start)
    (n := k - start + 1) (by omega)) (by omega)

/-- Within a window, the scan of base classes in the target stops on the moved stop. -/
theorem Window.scanBases_eq {depth : Nat} {current : List Token} {parents : List String}
    (hk : (scanBases (ρ.source.fromIndex start) start depth current parents).1.index ≤ k) :
    scanBases (ρ.target.fromIndex (start + ρ.offset)) (start + ρ.offset) depth current parents =
      ((scanBases (ρ.source.fromIndex start) start depth current parents).1.shift ρ.offset,
        (scanBases (ρ.source.fromIndex start) start depth current parents).2) := by
  have := le_index_scanBases (ρ.source.fromIndex start) start depth current parents
  exact scanBases_follow ρ.offset (hw.fromIndex_views hkl (Nat.le_refl start)
    (n := k - start + 1) (by omega)) rfl (by omega)

/-- Within a window, the run of names at the cursor looks the same in the target. -/
theorem Window.takeWhile_eq
    (hk : start + ((ρ.source.fromIndex start).takeWhile (·.kind == .identifier)).length ≤ k) :
    ((ρ.target.fromIndex (start + ρ.offset)).takeWhile (·.kind == .identifier)).map Token.view =
      ((ρ.source.fromIndex start).takeWhile (·.kind == .identifier)).map Token.view :=
  takeWhile_follow (hw.fromIndex_views hkl (Nat.le_refl start) (n := k - start + 1) (by omega))
    (by omega)

end Scans

end Relocation

end TypeReflection
