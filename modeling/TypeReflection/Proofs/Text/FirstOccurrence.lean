import TypeReflection.Text.Search

/-!
# Where the first occurrence of a text starts

`Text.afterFirst needle hay` scans `hay` from the left and stops at the first position where
`needle` begins. To find that position in a text built from pieces, each piece before it is shown
to hold no starting point of `needle`: `NoStartIn needle pre rest` says that no occurrence of
`needle` in `pre ++ rest` starts inside `pre`. Such a piece is skipped
(`afterFirst_append_of_noStartIn`), and the property splits along concatenation
(`noStartIn_append`), so a long text is handled one piece at a time.

A piece qualifies in three ways: it and `needle` disagree at every position of the piece, looking
ahead into a fixed text after it if need be (`Disagrees`, decidable, for fixed texts); none of its
characters is the first of `needle`; or `needle` does not start inside it and the character after
it is not one of `needle`'s.
-/

set_option autoImplicit false

namespace TypeReflection.Text

/-- No occurrence of `needle` in `pre ++ rest` starts at a position of `pre`. -/
def NoStartIn (needle pre rest : List Char) : Prop :=
  ∀ k < pre.length, ¬ needle <+: pre.drop k ++ rest

/-- At every position of `piece`, what follows in `piece ++ next` and `needle` differ before
either ends, so no occurrence of `needle` starts inside `piece` when `next` follows it. -/
def Disagrees (needle piece next : List Char) : Prop :=
  ∀ k < piece.length, ¬ needle <+: (piece ++ next).drop k ∧ ¬ (piece ++ next).drop k <+: needle

instance (needle piece next : List Char) : Decidable (Disagrees needle piece next) :=
  inferInstanceAs (Decidable (∀ k < piece.length, _))

theorem noStartIn_nil (needle rest : List Char) : NoStartIn needle [] rest :=
  fun _ hk => absurd hk (Nat.not_lt_zero _)

theorem noStartIn_cons {needle rest cs : List Char} {c : Char} :
    NoStartIn needle (c :: cs) rest ↔ ¬ needle <+: c :: (cs ++ rest) ∧ NoStartIn needle cs rest := by
  constructor
  · intro h
    exact ⟨h 0 (Nat.zero_lt_succ _), fun k hk => h (k + 1) (Nat.succ_lt_succ hk)⟩
  · rintro ⟨hhead, htail⟩ (_ | k) hk
    · exact hhead
    · exact htail k (Nat.lt_of_succ_lt_succ hk)

/-- A text holds no starting point exactly when each of its two parts holds none, the first
part being followed by the second. -/
theorem noStartIn_append {needle pre mid rest : List Char} :
    NoStartIn needle (pre ++ mid) rest ↔
      NoStartIn needle pre (mid ++ rest) ∧ NoStartIn needle mid rest := by
  induction pre with
  | nil => simp [noStartIn_nil]
  | cons c cs ih => simp [noStartIn_cons, ih, and_assoc]

/-- Cutting what follows a piece short cannot create a starting point in it. -/
theorem NoStartIn.of_prefix {needle pre rest rest' : List Char} (h : NoStartIn needle pre rest)
    (hr : rest' <+: rest) : NoStartIn needle pre rest' :=
  fun k hk hp => h k hk (hp.trans ((List.prefix_append_right_inj _).2 hr))

theorem Disagrees.noStartIn_append {needle piece next : List Char}
    (h : Disagrees needle piece next) (rest : List Char) :
    NoStartIn needle piece (next ++ rest) := by
  intro k hk hp
  rw [← List.append_assoc, ← List.drop_append_of_le_length (Nat.le_of_lt hk)] at hp
  -- both `needle` and the rest of `piece ++ next` begin the same text, so one begins the other
  rcases List.prefix_or_prefix_of_prefix hp (List.prefix_append _ rest) with hn | hd
  · exact (h k hk).1 hn
  · exact (h k hk).2 hd

theorem Disagrees.noStartIn {needle piece : List Char} (h : Disagrees needle piece [])
    (rest : List Char) : NoStartIn needle piece rest :=
  h.noStartIn_append rest

/-- A piece without the first character of `needle` holds no starting point of it. -/
theorem noStartIn_of_forall_ne {d : Char} {needle pre : List Char} (h : ∀ c ∈ pre, c ≠ d)
    (rest : List Char) : NoStartIn (d :: needle) pre rest := by
  intro k hk hp
  rw [List.drop_eq_getElem_cons hk, List.cons_append, List.cons_prefix_cons] at hp
  exact h _ (List.getElem_mem hk) hp.1.symm

/-- If no occurrence of `needle` starts inside a piece even when `mid` follows it, one that
starts there when `mid ++ c :: rest` follows would have to run on into `c`; a character that
`needle` does not contain stops it. -/
theorem NoStartIn.append_cons_of_not_mem {needle pre mid : List Char} {c : Char}
    (h : NoStartIn needle pre mid) (hc : c ∉ needle) (rest : List Char) :
    NoStartIn needle pre (mid ++ c :: rest) := by
  intro k hk hp
  have hcat : pre.drop k ++ mid ++ [c] <+: pre.drop k ++ (mid ++ c :: rest) := by simp
  rcases List.prefix_or_prefix_of_prefix hp hcat with hn | hn
  · rcases List.prefix_concat_iff.1 hn with rfl | hn
    · exact hc (by simp)
    · exact h k hk hn
  · exact hc (hn.subset (by simp))

/-- The same, for a `next` whose first characters are `mid` and then `c`. -/
theorem NoStartIn.append_of_take_eq {needle pre mid next : List Char} {c : Char}
    (h : NoStartIn needle pre mid) (hnext : next.take (mid.length + 1) = mid ++ [c])
    (hc : c ∉ needle) (rest : List Char) : NoStartIn needle pre (next ++ rest) := by
  have hsplit : next = mid ++ c :: next.drop (mid.length + 1) := by
    rw [← List.take_append_drop (mid.length + 1) next, hnext]
    simp
  rw [hsplit, List.append_assoc, List.cons_append]
  exact h.append_cons_of_not_mem hc _

/-- A nonempty `needle` is absent from `hay` exactly when no position of `hay` starts it. -/
theorem afterFirst_eq_none_iff {needle hay : List Char} (hn : needle ≠ []) :
    afterFirst needle hay = none ↔ NoStartIn needle hay [] := by
  induction hay with
  | nil => simp [afterFirst, hn, noStartIn_nil]
  | cons c cs ih =>
    rw [noStartIn_cons, List.append_nil, ← ih, afterFirst, ← List.isPrefixOf_iff_prefix]
    split <;> simp_all

/-- A piece holding no starting point of `needle` is skipped by the search. -/
theorem afterFirst_append_of_noStartIn {needle pre rest : List Char}
    (h : NoStartIn needle pre rest) : afterFirst needle (pre ++ rest) = afterFirst needle rest := by
  induction pre with
  | nil => rfl
  | cons c cs ih =>
    obtain ⟨hhead, htail⟩ := noStartIn_cons.1 h
    rw [List.cons_append, afterFirst, if_neg (mt List.isPrefixOf_iff_prefix.1 hhead)]
    exact ih htail

/-- A text that starts with `needle` is cut right after it. -/
theorem afterFirst_append_self (needle rest : List Char) :
    afterFirst needle (needle ++ rest) = some rest := by
  cases h : needle ++ rest with
  | nil =>
    obtain ⟨rfl, rfl⟩ := List.append_eq_nil_iff.1 h
    rfl
  | cons c cs =>
    have hpre : needle.isPrefixOf (c :: cs) = true :=
      List.isPrefixOf_iff_prefix.2 ⟨rest, h⟩
    rw [afterFirst, if_pos hpre, ← h, List.drop_left]

end TypeReflection.Text
