import TypeReflection.Proofs.Parse.Braces

/-!
# Reading a data member

A data member `T N A I ;` is read in two passes. The forward scan goes to the `;` and takes the
first `=` outside angle brackets for the end of the declarator; the backward scan then peels the
trailing `[..]` groups, which stay part of the type, and a trailing `{..}` group, which is
dropped, and takes the name before them.

Main statement (`property_reads_declaration`): when the type `T` is angle-balanced, the name `N`
is a plain name, each array bound of `A` pairs its brackets and angle brackets, and the
initializer `I` is empty, `= E`, or a brace group, and when no `=` stands in `T`, `A` or a brace
initializer, the read gives `N` with its line and the type spelled from `T` followed by the
bounds, reports nothing, and stops just past the `;`.

The forward scan counts angle brackets only, so an `=` inside the braces of an initializer, as
in a designated initializer `{.x = 1}` or a lambda capture `[=]`, ends the declarator there
instead (`property_takes_designator_for_name`).
-/

set_option autoImplicit false

namespace TypeReflection

namespace Token

/-- A run in which the brackets of kinds `o` and `c` pair up: no prefix closes one it did not
open, and the whole closes all it opens. -/
def Nested (o c : TokenKind) (ts : List Token) : Prop :=
  (∀ k < ts.length, 0 ≤ nestDepth o c (ts.take k)) ∧ nestDepth o c ts = 0

instance (o c : TokenKind) (ts : List Token) : Decidable (Nested o c ts) :=
  inferInstanceAs (Decidable (_ ∧ _))

/-- A token that may stand inside a declaration: no `;`, end of input or reflection marker. -/
def Inside (t : Token) : Prop := t.kind ≠ .semicolon ∧ t.kind ≠ .eof ∧ t.kind.isMarker = false

instance (t : Token) : Decidable t.Inside := inferInstanceAs (Decidable (_ ∧ _ ∧ _))

/-- A token that may stand in a declarator: inside a declaration, and no `=`. -/
def InDeclarator (t : Token) : Prop := t.Inside ∧ t.kind ≠ .equal

instance (t : Token) : Decidable t.InDeclarator := inferInstanceAs (Decidable (_ ∧ _))

/-- A group `o .. c` whose inside pairs the two kinds of bracket. -/
def Group (o c : TokenKind) (g : List Token) : Prop :=
  ∃ a z inner, g = a :: inner ++ [z] ∧ a.kind = o ∧ z.kind = c ∧ Nested o c inner

variable {o c : TokenKind}

theorem group_cons_iff {a : Token} {rest : List Token} (h : rest ≠ []) :
    Group o c (a :: rest) ↔ a.kind = o ∧ (rest.getLast h).kind = c ∧ Nested o c rest.dropLast := by
  constructor
  · rintro ⟨a', z, inner, heq, ha, hz, hinner⟩
    rw [List.cons_append, List.cons.injEq] at heq
    obtain ⟨rfl, rfl⟩ := heq
    simp [ha, hz, hinner]
  · rintro ⟨ha, hz, hinner⟩
    exact ⟨a, rest.getLast h, rest.dropLast,
      by rw [List.cons_append, List.dropLast_concat_getLast], ha, hz, hinner⟩

instance (o c : TokenKind) : (g : List Token) → Decidable (Group o c g)
  | [] => isFalse fun ⟨_, _, _, h, _⟩ => by simp at h
  | a :: rest =>
    if h : rest = [] then isFalse fun ⟨_, _, _, heq, _⟩ => by subst h; simp at heq
    else decidable_of_iff _ (group_cons_iff h).symm

theorem Nested.take_nonneg {ts : List Token} (h : Nested o c ts) (k : Nat) :
    0 ≤ nestDepth o c (ts.take k) := by
  by_cases hk : k < ts.length
  · exact h.1 k hk
  · have := h.2
    rw [List.take_of_length_le (by omega)]
    omega

theorem Nested.drop_nonpos {ts : List Token} (h : Nested o c ts) (k : Nat) :
    nestDepth o c (ts.drop k) ≤ 0 := by
  have hsplit := nestDepth_append o c (ts.take k) (ts.drop k)
  rw [List.take_append_drop, h.2] at hsplit
  have := h.take_nonneg k
  omega

theorem Nested.append {xs ys : List Token} (hx : Nested o c xs) (hy : Nested o c ys) :
    Nested o c (xs ++ ys) := by
  refine ⟨fun k _ => ?_, by simp [hx.2, hy.2]⟩
  rw [List.take_append, nestDepth_append]
  by_cases hk : k ≤ xs.length
  · rw [Nat.sub_eq_zero_of_le hk, List.take_zero, nestDepth_nil]
    have := hx.take_nonneg k
    omega
  · rw [List.take_of_length_le (by omega), hx.2]
    have := hy.take_nonneg (k - xs.length)
    omega

theorem nestDepth_of_neutral {ts : List Token} (h : ∀ t ∈ ts, t.kind ≠ o ∧ t.kind ≠ c) :
    nestDepth o c ts = 0 := by
  induction ts with
  | nil => rfl
  | cons t ts ih =>
    obtain ⟨ho, hc⟩ := h t List.mem_cons_self
    rw [nestDepth_cons, nestStep_of_ne o c ho hc, ih fun u hu => h u (List.mem_cons_of_mem t hu)]
    rfl

/-- A run with no bracket of either kind pairs them trivially. -/
theorem Nested.of_neutral {ts : List Token} (h : ∀ t ∈ ts, t.kind ≠ o ∧ t.kind ≠ c) :
    Nested o c ts := by
  refine ⟨fun k _ => ?_, nestDepth_of_neutral h⟩
  have : nestDepth o c (ts.take k) = 0 :=
    nestDepth_of_neutral fun t ht => h t (List.mem_of_mem_take ht)
  omega

theorem Nested.flatten {gs : List (List Token)} (h : ∀ g ∈ gs, Nested o c g) :
    Nested o c gs.flatten := by
  induction gs with
  | nil => exact Nested.of_neutral (by simp)
  | cons g gs ih =>
    rw [List.flatten_cons]
    exact (h g List.mem_cons_self).append (ih fun g' hg' => h g' (List.mem_cons_of_mem g hg'))

/-- A group closes all it opens, and every run that starts inside it and ends with it closes one
more bracket than it opens: the group's closer is matched by its opener and by nothing later. -/
theorem Group.nestDepth {g : List Token} (hoc : o ≠ c) (h : Group o c g) :
    nestDepth o c g = 0 ∧ ∀ k, 1 ≤ k → k < g.length → nestDepth o c (g.drop k) < 0 := by
  obtain ⟨a, z, inner, rfl, ha, hz, hinner⟩ := h
  have hsa : a.nestStep o c = 1 := by simp [nestStep, ha]
  have hsz : z.nestStep o c = -1 := by simp [nestStep, hz, Ne.symm hoc]
  refine ⟨by simp [hsa, hsz, hinner.2], fun k hk hlt => ?_⟩
  -- past the opener, the run is a suffix of the inside followed by the closer
  obtain ⟨j, rfl⟩ : ∃ j, k = j + 1 := ⟨k - 1, by omega⟩
  simp only [List.cons_append, List.drop_succ_cons, List.length_cons, List.length_append,
    List.length_nil] at hlt ⊢
  rw [List.drop_append_of_le_length (by omega), nestDepth_append]
  have := hinner.drop_nonpos j
  simp [hsz]
  omega

end Token

namespace Scan

open Token

/-- A token of a declarator moves the property scan one on, with the angle depth it counts. -/
theorem scanProperty_cons_of_inDeclarator {t : Token} (ht : t.InDeclarator) (ts : List Token)
    (i d : Nat) (b : Option Nat) :
    scanProperty (t :: ts) i d b =
      scanProperty ts (i + 1) ((d : Int) + t.nestStep .less .greater).toNat b := by
  obtain ⟨⟨hsemi, heof, hmark⟩, heq⟩ := ht
  rw [scanProperty]
  by_cases hl : t.kind = .less
  · have hdepth : ((d : Int) + t.nestStep .less .greater).toNat = d + 1 := by
      simp [nestStep, hl]
    simp only [hl, hdepth]
  by_cases hg : t.kind = .greater
  · have hdepth : ((d : Int) + t.nestStep .less .greater).toNat = d - 1 := by
      simp [nestStep, hg]
      omega
    simp only [hg, hdepth]
  -- every other kind a declarator holds passes with the depth unchanged
  have hdepth : ((d : Int) + t.nestStep .less .greater).toNat = d := by simp [nestStep, hl, hg]
  rw [hdepth]
  split
  · next hk => exact absurd hk hsemi
  · next hk => exact absurd hk heof
  · next hk => exact absurd hk hl
  · next hk => exact absurd hk hg
  · next hk => exact absurd hk heq
  · rw [if_neg (by simpa using hmark)]

theorem scanProperty_semicolon {t : Token} (ht : t.kind = .semicolon) (ts : List Token)
    (i d : Nat) (b : Option Nat) : scanProperty (t :: ts) i d b = (.found i, b) := by
  simp [scanProperty, ht]


/-- A run of a declarator whose angle brackets never close below the depth the scan starts at
is passed whole, and the scan goes on with the depth the run leaves. -/
theorem scanProperty_append_declarator (xs ys : List Token) (i d : Nat) (b : Option Nat)
    (hxs : ∀ t ∈ xs, t.InDeclarator)
    (hdepth : ∀ k, 0 ≤ (d : Int) + nestDepth .less .greater (xs.take k)) :
    scanProperty (xs ++ ys) i d b =
      scanProperty ys (i + xs.length) ((d : Int) + nestDepth .less .greater xs).toNat b := by
  induction xs generalizing i d with
  | nil => simp
  | cons t xs ih =>
    have hstep : 0 ≤ (d : Int) + t.nestStep .less .greater := by simpa using hdepth 1
    have hcast : (((d : Int) + t.nestStep .less .greater).toNat : Int) =
        d + t.nestStep .less .greater := Int.toNat_of_nonneg hstep
    rw [List.cons_append, scanProperty_cons_of_inDeclarator (hxs t List.mem_cons_self), ih]
    · rw [hcast, nestDepth_cons, List.length_cons, Int.add_assoc, Nat.add_assoc, Nat.add_comm 1]
    · exact fun u hu => hxs u (List.mem_cons_of_mem t hu)
    · intro k
      have := hdepth (k + 1)
      rw [List.take_succ_cons, nestDepth_cons] at this
      omega

/-- A run inside a declaration is passed whole, keeping the end of the declarator the scan has
marked, when the run holds no `=` or that end is marked already. -/
theorem scanProperty_append_inside (xs ys : List Token) (i d : Nat) (b : Option Nat)
    (hxs : ∀ t ∈ xs, t.Inside ∧ (b = none → t.kind ≠ .equal)) :
    ∃ d', scanProperty (xs ++ ys) i d b = scanProperty ys (i + xs.length) d' b := by
  induction xs generalizing i d with
  | nil => exact ⟨d, by simp⟩
  | cons t xs ih =>
    obtain ⟨hin, hb⟩ := hxs t List.mem_cons_self
    have hrest := fun u hu => hxs u (List.mem_cons_of_mem t hu)
    by_cases he : t.kind = .equal
    · -- an `=` once the end is marked changes nothing
      obtain ⟨j, rfl⟩ : ∃ j, b = some j := Option.ne_none_iff_exists'.mp fun h => hb h he
      obtain ⟨d', h'⟩ := ih (i + 1) d hrest
      refine ⟨d', ?_⟩
      rw [List.cons_append, scanProperty]
      simp [he, h', Nat.add_assoc, Nat.add_comm 1]
    · obtain ⟨d', h'⟩ := ih (i + 1) _ hrest
      refine ⟨d', ?_⟩
      rw [List.cons_append, scanProperty_cons_of_inDeclarator ⟨hin, he⟩, h']
      simp [Nat.add_assoc, Nat.add_comm 1]

/-- The backward scan from a closer at `top` finds the opener at `g` when the run from `g` to
`top` closes all it opens and every shorter run ending at `top` leaves a closer open. -/
theorem matchingOpen_of_balanced {tokens : Array Token} {o c : TokenKind} {top g : Nat}
    (htop : top < tokens.size) (hc : tokens[top].kind = c) (hoc : o ≠ c) (hg : g ≤ top)
    (hzero : nestDepth o c (tokens.extract g (top + 1)).toList = 0)
    (hneg : ∀ m, g < m → m ≤ top → nestDepth o c (tokens.extract m (top + 1)).toList < 0) :
    matchingOpen tokens o c top 0 = some g := by
  -- walk down from `top` to `g`, carrying the invariant of `matchingOpen_step`
  suffices h : ∀ n i (d : Nat), i = g + n → i ≤ top →
      (d : Int) = -nestDepth o c (tokens.extract (i + 1) (top + 1)).toList →
      (∀ m, i < m → m ≤ top → nestDepth o c (tokens.extract m (top + 1)).toList < 0) →
      matchingOpen tokens o c i d = some g by
    exact h (top - g) top 0 (by omega) (Nat.le_refl top) (by simp)
      fun m h₁ h₂ => absurd h₂ (by omega)
  intro n
  induction n with
  | zero =>
    rintro i d rfl hi hd hopen
    rcases matchingOpen_step htop hc hoc hi hd hopen with ⟨heq, -, -⟩ | ⟨-, -, hlt, -⟩
    · exact heq
    · rw [Nat.add_zero] at hlt
      omega
  | succ n ih =>
    rintro i d rfl hi hd hopen
    rcases matchingOpen_step htop hc hoc hi hd hopen with ⟨-, -, hz⟩ | ⟨d', hd', hlt, heq⟩
    · exact absurd hz (Int.ne_of_lt (hneg _ (by omega) hi))
    · rw [heq, if_neg (by omega)]
      refine ih (g + n + 1 - 1) d' (by omega) (by omega) ?_ ?_
      · rw [show g + n + 1 - 1 + 1 = g + (n + 1) by omega]
        exact hd'
      · intro m h₁ h₂
        rcases Nat.lt_or_eq_of_le (show g + (n + 1) ≤ m by omega) with h | rfl
        · exact hopen m h h₂
        · exact hlt

/-- The tokens of an array that spells `pre ++ mid ++ post`, from `k` tokens into `mid` to the
end of `mid`. -/
theorem extract_toList_of_eq {tokens : Array Token} {pre mid post : List Token}
    (h : tokens.toList = pre ++ mid ++ post) (k : Nat) :
    (tokens.extract (pre.length + k) (pre.length + mid.length)).toList = mid.drop k := by
  rw [Array.toList_extract, List.extract_eq_take_drop, h, List.append_assoc, List.drop_append,
    List.drop_of_length_le (by omega)]
  rw [List.nil_append, Nat.add_sub_cancel_left, Nat.add_sub_add_left]
  by_cases hk : k ≤ mid.length
  · rw [List.drop_append_of_le_length hk, List.take_append_of_le_length (by simp),
      List.take_of_length_le (by simp)]
  · rw [Nat.sub_eq_zero_of_le (by omega), List.take_zero, List.drop_of_length_le (by omega)]

/-- In an array that spells `pre ++ g ++ post` with `g` a group, the backward scan from the
group's closer stops at the group's opener. -/
theorem matchingOpen_group {tokens : Array Token} {pre g post : List Token} {o c : TokenKind}
    (htok : tokens.toList = pre ++ g ++ post) (hoc : o ≠ c) (hg : Group o c g) :
    matchingOpen tokens o c (pre.length + g.length - 1) 0 = some pre.length := by
  obtain ⟨hzero, hneg⟩ := hg.nestDepth hoc
  obtain ⟨a, z, inner, rfl, -, hz, -⟩ := hg
  have hglen : (a :: inner ++ [z]).length = inner.length + 2 := by simp
  -- the closer is the group's last token
  have hsize : tokens.size = pre.length + (inner.length + 2) + post.length := by
    rw [← Array.length_toList, htok]
    simp
    omega
  have hlast : tokens[pre.length + (inner.length + 1)]? = some z := by
    rw [← Array.getElem?_toList, htok]
    simp
  have htop : pre.length + (inner.length + 1) < tokens.size := by omega
  have hc : tokens[pre.length + (inner.length + 1)].kind = c := by
    rw [getElem?_pos tokens _ htop, Option.some_inj] at hlast
    rw [hlast, hz]
  have hend : pre.length + (inner.length + 1) + 1 = pre.length + (a :: inner ++ [z]).length := by
    rw [hglen]
    omega
  rw [hglen, show pre.length + (inner.length + 2) - 1 = pre.length + (inner.length + 1) by omega]
  refine matchingOpen_of_balanced htop hc hoc (by omega) ?_ fun m h₁ h₂ => ?_
  · have h0 := extract_toList_of_eq htok 0
    rw [Nat.add_zero, List.drop_zero] at h0
    rw [hend, h0]
    exact hzero
  · have hm := extract_toList_of_eq htok (m - pre.length)
    rw [Nat.add_sub_cancel' (by omega)] at hm
    rw [hend, hm]
    exact hneg _ (by omega) (by omega)

/-- Stripping a declarator's last group, a bracket group or a brace group that pairs its
brackets: the strip goes on before the group, with a bracket group spelled and kept in front of
the groups kept so far and a brace group dropped. -/
theorem stripGroups_group {tokens : Array Token} (pre g post : List Token)
    (htok : tokens.toList = pre ++ g ++ post) {o c : TokenKind}
    (hpair : o = .leftBracket ∧ c = .rightBracket ∨ o = .leftBrace ∧ c = .rightBrace)
    (hg : Group o c g) (groups : List String) :
    Parser.stripGroups tokens (pre.length + g.length) groups =
      Parser.stripGroups tokens pre.length
        (if c = .rightBracket then Token.spell g :: groups else groups) := by
  have hoc : o ≠ c := by rcases hpair with ⟨rfl, rfl⟩ | ⟨rfl, rfl⟩ <;> decide
  -- the backward scan from the group's closer stops at its opener
  have hmatch := matchingOpen_group htok hoc hg
  obtain ⟨a, z, inner, rfl, -, hz, -⟩ := hg
  have hglen : (a :: inner ++ [z]).length = inner.length + 2 := by simp
  rw [hglen, show pre.length + (inner.length + 2) - 1 = pre.length + (inner.length + 1) by omega]
    at hmatch
  have hlast : tokens[pre.length + (inner.length + 1)]? = some z := by
    rw [← Array.getElem?_toList, htok]
    simp
  have hgroup : (tokens.toList.drop pre.length).take (inner.length + 2) = a :: inner ++ [z] := by
    rw [htok, List.append_assoc, List.drop_left, List.take_append_of_le_length (by simp),
      List.take_of_length_le (by simp)]
  rw [hglen, Parser.stripGroups, if_pos (by omega)]
  rcases hpair with ⟨rfl, rfl⟩ | ⟨rfl, rfl⟩
  · simp [hlast, hz, hmatch, hgroup]
  · simp [hlast, hz, hmatch]

/-- Stripping a run of bracket groups keeps them all, spelled, in the order they stand. -/
theorem stripGroups_bounds {tokens : Array Token} (gs : List (List Token))
    (hgs : ∀ g ∈ gs, Group .leftBracket .rightBracket g) (pre post : List Token)
    (htok : tokens.toList = pre ++ gs.flatten ++ post) (groups : List String) :
    Parser.stripGroups tokens (pre.length + gs.flatten.length) groups =
      Parser.stripGroups tokens pre.length (gs.map Token.spell ++ groups) := by
  induction gs generalizing pre with
  | nil => simp
  | cons g gs ih =>
    -- strip the later groups first, then the first one
    have hrest := ih (fun g' hg' => hgs g' (List.mem_cons_of_mem g hg')) (pre ++ g)
      (by rw [htok, List.flatten_cons]; simp only [List.append_assoc])
    rw [List.flatten_cons, List.length_append, ← Nat.add_assoc, ← List.length_append, hrest,
      List.length_append, stripGroups_group pre g (gs.flatten ++ post)
        (by rw [htok, List.flatten_cons]; simp only [List.append_assoc])
        (.inl ⟨rfl, rfl⟩) (hgs g List.mem_cons_self)]
    simp

/-- The strip stops at a token that closes no group. -/
theorem stripGroups_stop {tokens : Array Token} {index : Nat} {t : Token}
    (ht : tokens[index]? = some t) (hb : t.kind ≠ .rightBracket) (hc : t.kind ≠ .rightBrace)
    (groups : List String) : Parser.stripGroups tokens (index + 1) groups = (index + 1, groups) := by
  rw [Parser.stripGroups, if_pos (Nat.succ_pos index)]
  simp [ht, hb, hc]

end Scan

namespace Parser

open Token Scan

/-- An array bound `[ .. ]`: it pairs its brackets and its angle brackets, and holds no `;`,
`=`, end of input or marker. -/
def ArrayBound (g : List Token) : Prop :=
  Group .leftBracket .rightBracket g ∧ Nested .less .greater g ∧ ∀ t ∈ g, t.InDeclarator

instance (g : List Token) : Decidable (ArrayBound g) := inferInstanceAs (Decidable (_ ∧ _ ∧ _))

/-- What may stand between a data member's declarator and its `;`. -/
inductive Initializer : List Token → Prop
  /-- No initializer. -/
  | empty : Initializer []
  /-- `= E`, where `E` holds no `;`, end of input or marker. -/
  | assign (eq : Token) (expr : List Token) (heq : eq.kind = .equal)
      (hexpr : ∀ t ∈ expr, t.Inside) : Initializer (eq :: expr)
  /-- A brace group with no `;`, `=`, end of input or marker in it. -/
  | braces (g : List Token) (hg : Group .leftBrace .rightBrace g)
      (hin : ∀ t ∈ g, t.InDeclarator) : Initializer g

/-- The forward scan over a data member `D I ;` finds the `;`. The end of the declarator it
marks is the `=` of an initializer `= E`, and otherwise the `;`: what lies before it is `D`
followed by a part of `I` that is empty or a brace group. -/
theorem scanProperty_member {D I : List Token} (rest : List Token) {semi : Token}
    (hD : ∀ t ∈ D, t.InDeclarator) (hnest : Nested .less .greater D) (hI : Initializer I)
    (hsemi : semi.kind = .semicolon) (i : Nat) :
    ∃ b K, scanProperty (D ++ I ++ semi :: rest) i 0 none = (.found (i + (D ++ I).length), b) ∧
      b.getD (i + (D ++ I).length) = i + (D ++ K).length ∧ K <+: I ∧
      (K = [] ∨ Group .leftBrace .rightBrace K) := by
  -- the declarator is passed whole and leaves the angle depth at zero
  have hpass : ∀ ys, scanProperty (D ++ ys) i 0 none = scanProperty ys (i + D.length) 0 none := by
    intro ys
    rw [scanProperty_append_declarator D ys i 0 none hD (fun k => by simpa using hnest.take_nonneg k),
      hnest.2]
    rfl
  cases hI with
  | empty =>
    refine ⟨none, [], ?_, by simp, List.nil_prefix, .inl rfl⟩
    rw [List.append_nil, hpass, scanProperty_semicolon hsemi]
  | assign eq expr heq hexpr =>
    -- the `=` at depth zero marks the end, and the expression keeps it
    obtain ⟨d, hd⟩ := scanProperty_append_inside expr (semi :: rest) (i + D.length + 1) 0
      (some (i + D.length)) fun t ht => ⟨hexpr t ht, fun h => by cases h⟩
    refine ⟨some (i + D.length), [], ?_, by simp, List.nil_prefix, .inl rfl⟩
    rw [List.append_assoc, hpass, List.cons_append, scanProperty]
    simp only [heq]
    simp [hd, scanProperty_semicolon hsemi]
    omega
  | braces _ hg hin =>
    obtain ⟨d, hd⟩ := scanProperty_append_inside I (semi :: rest) (i + D.length) 0 none
      fun t ht => ⟨(hin t ht).1, fun _ => (hin t ht).2⟩
    refine ⟨none, I, ?_, by simp, List.prefix_refl I, .inr hg⟩
    rw [List.append_assoc, hpass, hd, scanProperty_semicolon hsemi]
    simp [Nat.add_assoc]

/-- The read of a data member whose forward scan found its `;` at `stop`, and whose declarator,
up to the end the scan marked, is `T N` and bracket groups followed by nothing or a brace
group: it gives `N` and the type spelled from `T` and the groups, warns of nothing, and stops
past the `;`. -/
theorem property_runOn_of_scan {input : ParseInput} {s : ParseState} {stop : Nat}
    {b : Option Nat} (hscan : scanProperty (input.fromIndex s.pos) s.pos 0 none = (.found stop, b))
    (hstop : stop + 1 ≤ input.lastIndex) {T K : List Token} {N : Token} {gs : List (List Token)}
    (htokens : (input.tokens.extract s.pos (b.getD stop)).toList = T ++ N :: gs.flatten ++ K)
    (hT : T ≠ []) (hN : N.kind = .identifier) (hgs : ∀ g ∈ gs, Group .leftBracket .rightBracket g)
    (hK : K = [] ∨ Group .leftBrace .rightBrace K) :
    property.runOn input s =
      (.ok ⟨spell T ++ String.join (gs.map spell), N.text, .empty, N.span.line⟩,
        { s with pos := stop + 1 }) := by
  -- the declarator's groups are stripped back to the name
  have hstrip : stripGroups (input.tokens.extract s.pos (b.getD stop))
      (input.tokens.extract s.pos (b.getD stop)).size [] = (T.length + 1, gs.map spell) := by
    have hsize : (input.tokens.extract s.pos (b.getD stop)).size =
        (T ++ [N] ++ gs.flatten).length + K.length := by
      rw [← Array.length_toList, htokens]
      simp
      omega
    have hbounds := stripGroups_bounds gs hgs (T ++ [N]) K (by rw [htokens]; simp) []
    have hstop : stripGroups (input.tokens.extract s.pos (b.getD stop)) (T.length + 1)
        (gs.map spell) = (T.length + 1, gs.map spell) := by
      refine stripGroups_stop (t := N) ?_ (by simp [hN]) (by simp [hN]) _
      rw [← Array.getElem?_toList, htokens]
      simp
    rcases hK with rfl | hK
    · rw [hsize, List.length_nil, Nat.add_zero, List.length_append, hbounds, List.append_nil]
      simpa using hstop
    · rw [hsize, stripGroups_group (T ++ [N] ++ gs.flatten) K []
        (by rw [htokens]; simp) (.inr ⟨rfl, rfl⟩) hK, if_neg (by decide), List.length_append,
        hbounds, List.append_nil]
      simpa using hstop
  have hname : (input.tokens.extract s.pos (b.getD stop))[T.length]? = some N := by
    rw [← Array.getElem?_toList, htokens]
    simp
  have htype : (input.tokens.extract s.pos (b.getD stop)).toList.take T.length = T := by
    rw [htokens]
    simp
  have hTlen : T.length ≠ 0 := by simpa using hT
  unfold property
  rw [runOn_bind_of_ok _ _ (runOn_position _ _), runOn_bind_of_ok _ _ (runOn_read _ _)]
  simp only [hscan]
  rw [runOn_bind_of_ok _ _ (runOn_seek _ _ _)]
  simp only [hstrip]
  simp [hname, Option.filter, hN, htype, hTlen, Nat.min_eq_left hstop, -Array.toList_extract]

/-- The tokens from `i` on, when they start with `xs`, hold `xs` up to `i + xs.length`. -/
theorem extract_of_fromIndex {input : ParseInput} {i : Nat} {xs ys : List Token}
    (h : input.fromIndex i = xs ++ ys) : (input.tokens.extract i (i + xs.length)).toList = xs := by
  rw [Array.toList_extract, List.extract_eq_take_drop, Nat.add_sub_cancel_left]
  change (input.fromIndex i).take xs.length = xs
  rw [h, List.take_left' rfl]

/-- A data member `T N A I ;` is read whole. When the type `T` is a non-empty angle-balanced run
with no `=`, `N` is a plain name, every array bound of `A` pairs its brackets and angle brackets
and holds no `=`, and the initializer `I` is empty, `= E`, or a brace group with no `=`, none of
them holding a `;`, the end of input or a marker: the read gives the name `N` on its line and
the type spelled from `T` followed by the bounds in the order they stand, warns of nothing, and
leaves the cursor just past the `;`. -/
theorem property_reads_declaration {input : ParseInput} {s : ParseState}
    {T : List Token} {N : Token} {A : List (List Token)} {I : List Token} {semi : Token}
    {rest : List Token}
    (hinput : input.fromIndex s.pos = T ++ N :: A.flatten ++ I ++ semi :: rest) (hrest : rest ≠ [])
    (hT : T ≠ []) (hTangles : Nested .less .greater T) (hTin : ∀ t ∈ T, t.InDeclarator)
    (hN : N.kind = .identifier) (hA : ∀ g ∈ A, ArrayBound g) (hI : Initializer I)
    (hsemi : semi.kind = .semicolon) :
    property.runOn input s =
      (.ok ⟨spell T ++ String.join (A.map spell), N.text, .empty, N.span.line⟩,
        { s with pos := s.pos + (T ++ N :: A.flatten ++ I).length + 1 }) := by
  have hD : ∀ t ∈ T ++ N :: A.flatten, t.InDeclarator := by
    intro t ht
    simp only [List.mem_append, List.mem_cons, List.mem_flatten] at ht
    rcases ht with ht | rfl | ⟨g, hg, ht⟩
    · exact hTin t ht
    · simp [InDeclarator, Inside, hN, TokenKind.isMarker]
    · exact (hA g hg).2.2 t ht
  have hname : Nested .less .greater [N] := Nested.of_neutral (by simp [hN])
  have hnest : Nested .less .greater (T ++ N :: A.flatten) :=
    hTangles.append (hname.append (Nested.flatten fun g hg => (hA g hg).2.1))
  obtain ⟨b, K, hscan, hend, ⟨I', rfl⟩, hK⟩ := scanProperty_member rest hD hnest hI hsemi s.pos
  -- the cursor ends before the last token, which follows the `;`
  have hlen := input.length_fromIndex s.pos
  rw [hinput] at hlen
  have hrl : 0 < rest.length := List.length_pos_iff.2 hrest
  have hstop : s.pos + (T ++ N :: A.flatten ++ (K ++ I')).length + 1 ≤ input.lastIndex := by
    simp only [List.length_append, List.length_cons] at hlen ⊢
    unfold ParseInput.lastIndex
    omega
  have htokens : (input.tokens.extract s.pos
      (b.getD (s.pos + (T ++ N :: A.flatten ++ (K ++ I')).length))).toList =
        T ++ N :: A.flatten ++ K := by
    rw [hend]
    exact extract_of_fromIndex (show input.fromIndex s.pos =
      (T ++ N :: A.flatten ++ K) ++ (I' ++ semi :: rest) by rw [hinput]; simp)
  exact property_runOn_of_scan (by rw [hinput]; exact hscan) hstop htokens hT hN
    (fun g hg => (hA g hg).1) hK

/-- `Map<int, int> V[2]{1, 2};` is read as the member `V` of type `Map<int, int>[2]`, and the
read stops at the end of input just past the `;`. -/
theorem property_reads_declaration_map :
    (property.runOn (ParseInput.ofTokens (tokenize "Map<int, int> V[2]\x7b1, 2\x7d;").tokens "t.h") ⟨0, .empty⟩).1 =
        .ok ⟨"Map<int, int>[2]", "V", .empty, 1⟩ ∧
      (property.runOn (ParseInput.ofTokens (tokenize "Map<int, int> V[2]\x7b1, 2\x7d;").tokens "t.h")
        ⟨0, .empty⟩).2.pos = 16 := by
  have h := @property_reads_declaration (ParseInput.ofTokens (tokenize "Map<int, int> V[2]\x7b1, 2\x7d;").tokens "t.h")
    ⟨0, .empty⟩ ((ParseInput.ofTokens (tokenize "Map<int, int> V[2]\x7b1, 2\x7d;").tokens "t.h").slice 0 6)
    ((ParseInput.ofTokens (tokenize "Map<int, int> V[2]\x7b1, 2\x7d;").tokens "t.h").tokenAt 6)
    [(ParseInput.ofTokens (tokenize "Map<int, int> V[2]\x7b1, 2\x7d;").tokens "t.h").slice 7 10]
    ((ParseInput.ofTokens (tokenize "Map<int, int> V[2]\x7b1, 2\x7d;").tokens "t.h").slice 10 15)
    ((ParseInput.ofTokens (tokenize "Map<int, int> V[2]\x7b1, 2\x7d;").tokens "t.h").tokenAt 15)
    ((ParseInput.ofTokens (tokenize "Map<int, int> V[2]\x7b1, 2\x7d;").tokens "t.h").fromIndex 16)
    (by decide +kernel) (by decide +kernel) (by decide +kernel) (by decide +kernel)
    (by decide +kernel) (by decide +kernel)
    (fun g hg => by rw [List.mem_singleton.1 hg]; decide +kernel)
    (.braces _ (by decide +kernel) (by decide +kernel)) (by decide +kernel)
  rw [h]
  refine ⟨congrArg Except.ok ?_, ?_⟩ <;> decide +kernel

/-- The end of a declarator is found by counting angle brackets only. An `=` inside the braces
of a designated initializer stands at angle depth zero, so `Point P\x7b.x = 1\x7d;` is read as the
member `x` of type `Point P\x7b`; and a `<` inside an array bound leaves the depth above zero, so
the `=` of `int V[1 < 2] = \x7b5\x7d;` is passed over and no name is found before the `;`. -/
theorem property_boundary_counts_angles_only :
    ((parseHeader "GCLASS() class A \x7b GPROPERTY() Point P\x7b.x = 1\x7d; \x7d;" "test.h").decls.records.map
        fun r => r.properties.map fun q => (q.type, q.name)) = [[("Point P\x7b", "x")]] ∧
      (parseHeader "GCLASS() class A \x7b GPROPERTY() Point P\x7b.x = 1\x7d; \x7d;"
        "test.h").diagnostics.errors = #[] ∧
      (parseHeader "GCLASS() class A \x7b GPROPERTY() Point P\x7b.x = 1\x7d; \x7d;"
        "test.h").diagnostics.warnings = #[] ∧
      ((parseHeader "GCLASS() class A \x7b GPROPERTY() int V[1 < 2] = \x7b5\x7d; \x7d;"
        "test.h").decls.records.map fun r => r.properties) = [[]] ∧
      ((parseHeader "GCLASS() class A \x7b GPROPERTY() int V[1 < 2] = \x7b5\x7d; \x7d;"
        "test.h").diagnostics.errors.map (·.problem)).toList = [.missingName "property"] := by
  decide +kernel

end Parser

end TypeReflection
