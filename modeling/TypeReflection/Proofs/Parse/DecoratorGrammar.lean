import TypeReflection.Proofs.Parse.Rounds

/-!
# The grammar of decorator lists

Every reflection marker is followed by a decorator list, read by a small recursive descent
over the tokens. This file states the grammar it reads as inductive relations on token
positions and shows that the parser accepts exactly that grammar:

```
DL ::= '(' [D {',' D} [',']] ')'
D  ::= Identifier ['(' [V {',' V} [',']] ')']
V  ::= String | ['-'] Number [F] | W {'::' Identifier}
```

`F` is the name `f` or `F` starting at the very byte where the number ended, and `W` any word
other than a number or a marker. A relation such as `DecoratorListAt i l j` says that the tokens
from `i` up to `j` derive a decorator list whose reading is `l`: names as written, a text value
without its quotes, a number as written with a minus in front when negated, and a qualified name
joined by `::`.

The grammar leaves the suffix and the `::` parts optional, but after a value the list goes on
only with `,` or `)`, so a derivation of a whole list never stops short. The parser decides each
option by looking at the next token, and both directions are proved item by item: a successful
read derives what it read (`*_sound`), and a derivation followed by `,` or `)` is read exactly
(`*_complete`). The comma loops are given enough rounds: each item moves the cursor on.

Main statement: `decoratorList_reads_grammar`. On every token stream that ends with the end of
input, the decorator-list parser succeeds exactly when the stream at the cursor begins with a
derivation, and then it consumes exactly that derivation, reports nothing and returns its
reading.
-/

set_option autoImplicit false

namespace TypeReflection

namespace Parser

/-- `v` is the text `t` without its outer quotes: what stands between a leading and a trailing
double quote, or `t` itself when it is not so enclosed. -/
def Unquoted (t v : String) : Prop :=
  t.toList = '"' :: (v.toList ++ ['"']) ∨
    ((¬∃ w : String, t.toList = '"' :: (w.toList ++ ['"'])) ∧ v = t)

theorem unquote_of_enclosed {t w : String} (h : t.toList = '"' :: (w.toList ++ ['"'])) :
    unquote t = w := by
  unfold unquote
  rw [h]
  simp

theorem unquote_of_not_enclosed {t : String}
    (h : ¬∃ w : String, t.toList = '"' :: (w.toList ++ ['"'])) : unquote t = t := by
  unfold unquote
  split
  · next rest hrest =>
    split
    · next body hbody =>
      -- a leading and a trailing quote enclose the text after all
      refine absurd ⟨String.ofList body.reverse, ?_⟩ h
      rw [hrest, ← List.reverse_reverse rest, hbody]
      simp
    · rfl
  · rfl

/-- `unquote` removes exactly the outer quotes. -/
theorem unquoted_iff {t v : String} : Unquoted t v ↔ v = unquote t := by
  by_cases henc : ∃ w : String, t.toList = '"' :: (w.toList ++ ['"'])
  · obtain ⟨w, hw⟩ := henc
    rw [unquote_of_enclosed hw]
    constructor
    · rintro (h | ⟨hne, -⟩)
      · rw [hw, List.cons.injEq, List.append_left_inj] at h
        exact String.toList_injective h.2.symm
      · exact absurd ⟨w, hw⟩ hne
    · rintro rfl
      exact .inl hw
  · rw [unquote_of_not_enclosed henc]
    constructor
    · rintro (h | ⟨-, rfl⟩)
      · exact absurd ⟨v, h⟩ henc
      · rfl
    · rintro rfl
      exact .inr ⟨henc, rfl⟩

end Parser

namespace ParseInput

variable (input : ParseInput)

/-- At `i` stands the name `f` or `F`, starting at the byte `e` where a number ended. -/
def GluedSuffix (e i : Nat) : Prop :=
  (input.tokenAt i).kind = .identifier ∧ (input.tokenAt i).span.start = e ∧
    ((input.tokenAt i).text = "f" ∨ (input.tokenAt i).text = "F")

/-- An optional float suffix from `i` to `j`, glued to a number that ended at byte `e`. -/
inductive SuffixAt (e : Nat) : Nat → Nat → Prop
  | none (i : Nat) : SuffixAt e i i
  | glued {i : Nat} : input.GluedSuffix e i → SuffixAt e i (i + 1)

/-- A word that starts a name value: any word but a number or a marker. -/
def NameStart (i : Nat) : Prop :=
  (input.tokenAt i).kind.isWord = true ∧ (input.tokenAt i).kind.isMarker = false ∧
    (input.tokenAt i).kind ≠ .number

/-- The `::name` parts from `i` to `j`, written after the text `acc`, give the name `v`. -/
inductive QualifiedAt : Nat → String → String → Nat → Prop
  | done (i : Nat) (acc : String) : QualifiedAt i acc acc i
  | part {i j : Nat} {acc v : String} : (input.tokenAt i).kind = .colonColon →
      (input.tokenAt (i + 1)).kind = .identifier →
      QualifiedAt (i + 2) (acc ++ "::" ++ (input.tokenAt (i + 1)).text) v j → QualifiedAt i acc v j

/-- A decorator value from `i` to `j` whose reading is `v`. -/
inductive ValueAt : Nat → String → Nat → Prop
  | string {i : Nat} {v : String} : (input.tokenAt i).kind = .string →
      Parser.Unquoted (input.tokenAt i).text v → ValueAt i v (i + 1)
  | number {i j : Nat} : (input.tokenAt i).kind = .number →
      input.SuffixAt (input.tokenAt i).span.stop (i + 1) j → ValueAt i (input.tokenAt i).text j
  | negative {i j : Nat} : (input.tokenAt i).kind = .minus →
      (input.tokenAt (i + 1)).kind = .number →
      input.SuffixAt (input.tokenAt (i + 1)).span.stop (i + 2) j →
      ValueAt i ("-" ++ (input.tokenAt (i + 1)).text) j
  | name {i j : Nat} {v : String} : input.NameStart i →
      input.QualifiedAt (i + 1) (input.tokenAt i).text v j → ValueAt i v j

/-- Items derived by `item`, separated by commas with an optional trailing comma, from `i` up
to the closing token of kind `close` at `j`. -/
inductive ItemsAt {α : Type} (close : TokenKind) (item : Nat → α → Nat → Prop) :
    Nat → List α → Nat → Prop
  | close {i : Nat} : (input.tokenAt i).kind = close → ItemsAt close item i [] i
  | last {i k : Nat} {x : α} : item i x k → (input.tokenAt k).kind = close →
      ItemsAt close item i [x] k
  | comma {i k j : Nat} {x : α} {xs : List α} : item i x k → (input.tokenAt k).kind = .comma →
      ItemsAt close item (k + 1) xs j → ItemsAt close item i (x :: xs) j

/-- A decorator from `i` to `j`: a name, bare or with a parenthesized list of values. -/
inductive DecoratorAt : Nat → Decorator → Nat → Prop
  | bare {i : Nat} : (input.tokenAt i).kind = .identifier →
      DecoratorAt i ⟨(input.tokenAt i).text, []⟩ (i + 1)
  | valued {i j : Nat} {vs : List String} : (input.tokenAt i).kind = .identifier →
      (input.tokenAt (i + 1)).kind = .leftParen →
      input.ItemsAt .rightParen input.ValueAt (i + 2) vs j →
      DecoratorAt i ⟨(input.tokenAt i).text, vs⟩ (j + 1)

/-- A decorator list from `i` to `j`: its decorators between parentheses. -/
inductive DecoratorListAt : Nat → DecoratorList → Nat → Prop
  | mk {i j : Nat} {ds : List Decorator} : (input.tokenAt i).kind = .leftParen →
      input.ItemsAt .rightParen input.DecoratorAt (i + 1) ds j → DecoratorListAt i ⟨ds⟩ (j + 1)

/-- What may follow an item of a list closed by `close`: a comma or the closing token. -/
def Closes (close : TokenKind) (j : Nat) : Prop :=
  (input.tokenAt j).kind = .comma ∨ (input.tokenAt j).kind = close

variable {input}

/-- A token of a kind other than the end of input stands before the last one. -/
theorem lt_lastIndex_of_kind (hin : input.EndsWithEof) {i : Nat} {k : TokenKind}
    (hk : (input.tokenAt i).kind = k) (hne : k ≠ .eof) : i < input.lastIndex :=
  input.lt_lastIndex_of_ne_eof hin (hk ▸ hne)

/-- Moving past a token that is not the end of input goes to the next index. -/
theorem next_of_kind (hin : input.EndsWithEof) {i : Nat} {k : TokenKind}
    (hk : (input.tokenAt i).kind = k) (hne : k ≠ .eof) : input.next i = i + 1 :=
  input.next_of_lt (lt_lastIndex_of_kind hin hk hne)

theorem Closes.lt_lastIndex (hin : input.EndsWithEof) {close : TokenKind} (hclose : close ≠ .eof)
    {j : Nat} (hj : input.Closes close j) : j < input.lastIndex := by
  rcases hj with hj | hj
  · exact lt_lastIndex_of_kind hin hj (by decide)
  · exact lt_lastIndex_of_kind hin hj hclose

theorem QualifiedAt.le {i j : Nat} {acc v : String} (h : input.QualifiedAt i acc v j) : i ≤ j := by
  induction h with
  | done => exact Nat.le_refl _
  | part _ _ _ ih => omega

theorem SuffixAt.le {e i j : Nat} (h : input.SuffixAt e i j) : i ≤ j := by
  cases h <;> omega

/-- A value spans at least one token. -/
theorem ValueAt.lt {i j : Nat} {v : String} (h : input.ValueAt i v j) : i < j := by
  cases h with
  | string => omega
  | number _ hs => have := hs.le; omega
  | negative _ _ hs => have := hs.le; omega
  | name _ hq => have := hq.le; omega

/-- No value starts with `)`. -/
theorem ValueAt.not_close {i j : Nat} {v : String} (h : input.ValueAt i v j) :
    (input.tokenAt i).kind ≠ .rightParen := by
  cases h with
  | string hk => rw [hk]; decide
  | number hk => rw [hk]; decide
  | negative hk => rw [hk]; decide
  | name hname =>
    intro hk
    have := hname.1
    rw [hk] at this
    simp [TokenKind.isWord, TokenKind.isMarker] at this

/-- A list of items ends at its `)`. -/
theorem ItemsAt.closes {α : Type} {close : TokenKind} {item : Nat → α → Nat → Prop} {i j : Nat}
    {xs : List α} (h : input.ItemsAt close item i xs j) : (input.tokenAt j).kind = close := by
  induction h with
  | close hk => exact hk
  | last _ hk => exact hk
  | comma _ _ _ ih => exact ih

theorem ItemsAt.le {α : Type} {close : TokenKind} {item : Nat → α → Nat → Prop}
    (hlt : ∀ i x k, item i x k → i < k) {i j : Nat} {xs : List α}
    (h : input.ItemsAt close item i xs j) : i ≤ j := by
  induction h with
  | close => exact Nat.le_refl _
  | last hx => exact Nat.le_of_lt (hlt _ _ _ hx)
  | comma hx _ _ ih => have := hlt _ _ _ hx; omega

/-- A decorator spans at least one token. -/
theorem DecoratorAt.lt {i j : Nat} {d : Decorator} (h : input.DecoratorAt i d j) : i < j := by
  cases h with
  | bare => omega
  | valued _ _ hvs => have := hvs.le (fun _ _ _ hv => hv.lt); omega

/-- No decorator starts with `)`. -/
theorem DecoratorAt.not_close {i j : Nat} {d : Decorator} (h : input.DecoratorAt i d j) :
    (input.tokenAt i).kind ≠ .rightParen := by
  cases h with
  | bare hk => rw [hk]; decide
  | valued hk => rw [hk]; decide

end ParseInput

namespace Parser

open ParseInput

variable {α : Type} {input : ParseInput}

variable {s : ParseState}

theorem check_of_kind {k : TokenKind} (hk : (input.tokenAt s.pos).kind = k) :
    (check k).runOn input s = (.ok true, s) := by
  simp [hk]

theorem check_of_ne {k : TokenKind} (hk : (input.tokenAt s.pos).kind ≠ k) :
    (check k).runOn input s = (.ok false, s) := by
  simp [hk]

theorem eat_of_kind {k : TokenKind} (hk : (input.tokenAt s.pos).kind = k) :
    (eat k).runOn input s = (.ok true, { s with pos := input.next s.pos }) := by
  rw [runOn_eat, if_pos hk]

theorem eat_of_ne {k : TokenKind} (hk : (input.tokenAt s.pos).kind ≠ k) :
    (eat k).runOn input s = (.ok false, s) := by
  rw [runOn_eat, if_neg hk]

theorem expect_of_kind {k : TokenKind} (hk : (input.tokenAt s.pos).kind = k) :
    (expect k).runOn input s = (.ok (input.tokenAt s.pos), { s with pos := input.next s.pos }) := by
  rw [runOn_expect, if_pos hk]

theorem expect_of_ne {k : TokenKind} (hk : (input.tokenAt s.pos).kind ≠ k) :
    (expect k).runOn input s =
      (.error (ParseError.unexpected k.describe (input.tokenAt s.pos) input.path), s) := by
  rw [runOn_expect, if_neg hk]

/-! ## The float suffix -/

/-- The parser's test for a suffix is `GluedSuffix`. -/
theorem glued_iff {e : Nat} {t : Token} :
    (t.span.start == e && (t.isName "f" || t.isName "F")) = true ↔
      t.kind = .identifier ∧ t.span.start = e ∧ (t.text = "f" ∨ t.text = "F") := by
  simp only [Token.isName, Bool.and_eq_true, Bool.or_eq_true, beq_iff_eq]
  constructor
  · rintro ⟨he, ⟨hk, hf⟩ | ⟨hk, hf⟩⟩
    · exact ⟨hk, he, .inl hf⟩
    · exact ⟨hk, he, .inr hf⟩
  · rintro ⟨hk, he, hf | hf⟩
    · exact ⟨he, .inl ⟨hk, hf⟩⟩
    · exact ⟨he, .inr ⟨hk, hf⟩⟩

theorem skipFloatSuffix_of_glued {e : Nat} (h : input.GluedSuffix e s.pos) :
    (skipFloatSuffix e).runOn input s = (.ok (), { s with pos := input.next s.pos }) := by
  unfold skipFloatSuffix
  rw [runOn_bind_of_ok _ _ (runOn_current _ _), if_pos (glued_iff.2 h)]
  rfl

theorem skipFloatSuffix_of_not_glued {e : Nat} (h : ¬input.GluedSuffix e s.pos) :
    (skipFloatSuffix e).runOn input s = (.ok (), s) := by
  unfold skipFloatSuffix
  rw [runOn_bind_of_ok _ _ (runOn_current _ _), if_neg (mt glued_iff.1 h)]
  rfl

section Reads

variable (hin : input.EndsWithEof)
include hin

/-- A float suffix is skipped when it is there, and the cursor moves on to the end of a
`SuffixAt` derivation. -/
theorem skipFloatSuffix_reads (e : Nat) (s : ParseState) :
    ∃ j, input.SuffixAt e s.pos j ∧ (skipFloatSuffix e).runOn input s = (.ok (), { s with pos := j }) := by
  by_cases hg : input.GluedSuffix e s.pos
  · refine ⟨s.pos + 1, .glued hg, ?_⟩
    rw [skipFloatSuffix_of_glued hg, next_of_kind hin hg.1 (by decide)]
  · exact ⟨s.pos, .none _, skipFloatSuffix_of_not_glued hg⟩

/-- A suffix followed by a comma or `)` is skipped exactly; without one, a comma or `)` is no
suffix. -/
theorem skipFloatSuffix_complete {e i j : Nat} (h : input.SuffixAt e i j)
    (hj : input.Closes .rightParen j) (hs : s.pos = i) :
    (skipFloatSuffix e).runOn input s = (.ok (), { s with pos := j }) := by
  subst hs
  cases h with
  | none =>
    have hng : ¬input.GluedSuffix e s.pos := by
      rintro ⟨hk, -⟩
      rcases hj with hj | hj <;> rw [hk] at hj <;> cases hj
    rw [skipFloatSuffix_of_not_glued hng]
  | glued hg =>
    rw [skipFloatSuffix_of_glued hg, next_of_kind hin hg.1 (by decide)]

/-! ## Qualified names -/

/-- A successful read of `::name` parts derives them. -/
theorem qualifiedTail_sound (n : Nat) :
    ∀ (acc v : String) (s s' : ParseState), (qualifiedTail n acc).runOn input s = (.ok v, s') →
      input.QualifiedAt s.pos acc v s'.pos ∧ s' = { s with pos := s'.pos } := by
  induction n with
  | zero =>
    intro acc v s s' h
    cases h
    exact ⟨.done _ _, rfl⟩
  | succ n ih =>
    intro acc v s s' h
    unfold qualifiedTail at h
    by_cases hcc : (input.tokenAt s.pos).kind = .colonColon
    · rw [runOn_bind_of_ok _ _ (check_of_kind hcc), if_pos rfl,
        runOn_bind_of_ok _ _ (runOn_advance _ _), next_of_kind hin hcc (by decide)] at h
      by_cases hid : (input.tokenAt (s.pos + 1)).kind = .identifier
      · rw [runOn_bind_of_ok _ _ (expect_of_kind (s := { s with pos := s.pos + 1 }) hid),
          next_of_kind hin hid (by decide)] at h
        obtain ⟨hq, hs'⟩ := ih _ v _ s' h
        exact ⟨.part hcc hid hq, hs'⟩
      · rw [runOn_bind_of_error _ _ (expect_of_ne (s := { s with pos := s.pos + 1 }) hid)] at h
        cases h
    · rw [runOn_bind_of_ok _ _ (check_of_ne hcc), if_neg Bool.false_ne_true] at h
      cases h
      exact ⟨.done _ _, rfl⟩

/-- `::name` parts followed by a comma or `)` are read exactly, given a round for every two
tokens. -/
theorem qualifiedTail_complete {i j : Nat} {acc v : String} (h : input.QualifiedAt i acc v j)
    (hj : input.Closes .rightParen j) :
    ∀ (n : Nat) (s : ParseState), s.pos = i → j ≤ i + 2 * n →
      (qualifiedTail n acc).runOn input s = (.ok v, { s with pos := j }) := by
  induction h with
  | done i acc =>
    intro n s hs _
    subst hs
    cases n with
    | zero => rfl
    | succ n =>
      have hcc : (input.tokenAt s.pos).kind ≠ .colonColon := by
        rcases hj with hj | hj <;> rw [hj] <;> decide
      unfold qualifiedTail
      rw [runOn_bind_of_ok _ _ (check_of_ne hcc), if_neg Bool.false_ne_true]
      rfl
  | part hcc hid hq ih =>
    intro n s hs hn
    subst hs
    have hle := hq.le
    obtain ⟨n, rfl⟩ : ∃ m, n = m + 1 := ⟨n - 1, by omega⟩
    unfold qualifiedTail
    rw [runOn_bind_of_ok _ _ (check_of_kind hcc), if_pos rfl,
      runOn_bind_of_ok _ _ (runOn_advance _ _), next_of_kind hin hcc (by decide),
      runOn_bind_of_ok _ _ (expect_of_kind (s := { s with pos := s.pos + 1 }) hid),
      next_of_kind hin hid (by decide)]
    exact ih hj n _ rfl (by omega)

/-! ## Values -/

/-- A successful read of a value derives it. -/
theorem decoratorValue_sound {v : String} {s' : ParseState}
    (h : decoratorValue.runOn input s = (.ok v, s')) :
    input.ValueAt s.pos v s'.pos ∧ s' = { s with pos := s'.pos } := by
  unfold decoratorValue at h
  rw [runOn_bind_of_ok _ _ (runOn_current _ _)] at h
  split at h
  · next hk =>
    rw [runOn_bind_of_ok _ _ (runOn_advance _ _), next_of_kind hin hk (by decide)] at h
    cases h
    exact ⟨.string hk (unquoted_iff.2 rfl), rfl⟩
  · next hk =>
    rw [runOn_bind_of_ok _ _ (runOn_advance _ _), next_of_kind hin hk (by decide)] at h
    obtain ⟨j, hsuf, hrun⟩ := skipFloatSuffix_reads hin (input.tokenAt s.pos).span.stop
      { s with pos := s.pos + 1 }
    rw [runOn_bind_of_ok _ _ hrun] at h
    cases h
    exact ⟨.number hk hsuf, rfl⟩
  · next hk =>
    rw [runOn_bind_of_ok _ _ (runOn_advance _ _), next_of_kind hin hk (by decide)] at h
    by_cases hn : (input.tokenAt (s.pos + 1)).kind = .number
    · rw [runOn_bind_of_ok _ _ (expect_of_kind (s := { s with pos := s.pos + 1 }) hn),
        next_of_kind hin hn (by decide)] at h
      obtain ⟨j, hsuf, hrun⟩ := skipFloatSuffix_reads hin (input.tokenAt (s.pos + 1)).span.stop
        { s with pos := s.pos + 2 }
      rw [runOn_bind_of_ok _ _ hrun] at h
      cases h
      exact ⟨.negative hk hn hsuf, rfl⟩
    · rw [runOn_bind_of_error _ _ (expect_of_ne (s := { s with pos := s.pos + 1 }) hn)] at h
      cases h
  · next _ _ hnumber _ =>
    split at h
    · next hword =>
      simp only [Bool.and_eq_true, Bool.not_eq_eq_eq_not, Bool.not_true] at hword
      have hne : (input.tokenAt s.pos).kind ≠ .eof := by
        intro heof
        simp [heof, TokenKind.isWord, TokenKind.isMarker] at hword
      rw [runOn_bind_of_ok _ _ (runOn_advance _ _), next_of_kind hin rfl hne,
        runOn_bind_of_ok _ _ (runOn_rounds _ _)] at h
      obtain ⟨hq, hs'⟩ := qualifiedTail_sound hin _ _ v _ s' h
      exact ⟨.name ⟨hword.1, hword.2, hnumber⟩ hq, hs'⟩
    · cases h

/-- A value followed by a comma or `)` is read exactly. -/
theorem decoratorValue_complete {i j : Nat} {v : String} (h : input.ValueAt i v j)
    (hj : input.Closes .rightParen j) (hs : s.pos = i) :
    decoratorValue.runOn input s = (.ok v, { s with pos := j }) := by
  subst hs
  unfold decoratorValue
  rw [runOn_bind_of_ok _ _ (runOn_current _ _)]
  cases h with
  | string hk hv =>
    simp only [hk]
    rw [runOn_bind_of_ok _ _ (runOn_advance _ _), next_of_kind hin hk (by decide),
      unquoted_iff.1 hv]
    rfl
  | number hk hsuf =>
    simp only [hk]
    rw [runOn_bind_of_ok _ _ (runOn_advance _ _), next_of_kind hin hk (by decide),
      runOn_bind_of_ok _ _ (skipFloatSuffix_complete hin hsuf hj rfl)]
    rfl
  | negative hk hn hsuf =>
    simp only [hk]
    rw [runOn_bind_of_ok _ _ (runOn_advance _ _), next_of_kind hin hk (by decide),
      runOn_bind_of_ok _ _ (expect_of_kind (s := { s with pos := s.pos + 1 }) hn),
      next_of_kind hin hn (by decide),
      runOn_bind_of_ok _ _ (skipFloatSuffix_complete hin hsuf hj rfl)]
    rfl
  | name hname hq =>
    obtain ⟨hword, hmarker, hnumber⟩ := hname
    have hlt := hj.lt_lastIndex hin (by decide)
    have hsize : input.lastIndex < input.tokens.size := by
      have := input.nonempty
      simp only [ParseInput.lastIndex]
      omega
    have hne : (input.tokenAt s.pos).kind ≠ .eof := by
      intro heof
      simp [heof, TokenKind.isWord, TokenKind.isMarker] at hword
    split
    · next hk => simp [hk, TokenKind.isWord, TokenKind.isMarker] at hword
    · next hk => exact absurd hk hnumber
    · next hk => simp [hk, TokenKind.isWord, TokenKind.isMarker] at hword
    · rw [if_pos (by simp [hword, hmarker]), runOn_bind_of_ok _ _ (runOn_advance _ _),
        next_of_kind hin rfl hne, runOn_bind_of_ok _ _ (runOn_rounds _ _)]
      exact qualifiedTail_complete hin hq hj _ _ rfl (by have := hq.le; omega)

/-! ## Comma-separated items -/

/-- What a list that runs up to `close` reads after an item: a comma, after which the list goes
on from the next token, or the closing token, where it goes on as it stands. Anything else
fails. -/
theorem separator_eq_ok {β : Type} {close : TokenKind} {msg : String} {k : Parser β} {r : β}
    {s' : ParseState}
    (h : (do
      let separated ← eat .comma
      if !separated then
        if !(← check close) then fail msg
      k).runOn input s = (.ok r, s')) :
    ((input.tokenAt s.pos).kind = .comma ∧ k.runOn input { s with pos := s.pos + 1 } = (.ok r, s')) ∨
      ((input.tokenAt s.pos).kind = close ∧ k.runOn input s = (.ok r, s')) := by
  by_cases hcomma : (input.tokenAt s.pos).kind = .comma
  · rw [runOn_bind_of_ok _ _ (eat_of_kind hcomma), next_of_kind hin hcomma (by decide),
      Bool.not_true, if_neg Bool.false_ne_true] at h
    exact .inl ⟨hcomma, h⟩
  · rw [runOn_bind_of_ok _ _ (eat_of_ne hcomma)] at h
    by_cases hclose : (input.tokenAt s.pos).kind = close
    · rw [Bool.not_false, if_pos rfl, runOn_bind_of_ok _ _ (check_of_kind hclose), Bool.not_true,
        if_neg Bool.false_ne_true] at h
      exact .inr ⟨hclose, h⟩
    · rw [Bool.not_false, if_pos rfl, runOn_bind_of_ok _ _ (check_of_ne hclose), Bool.not_false,
        if_pos rfl, runOn_bind_of_error _ _ (runOn_fail _ _ _)] at h
      cases h

section Items

variable {item : Parser α} {rel : Nat → α → Nat → Prop}

omit hin in
/-- At a `)`, the loop stops at once, whatever its rounds. -/
theorem commaItems_at_close (hk : (input.tokenAt s.pos).kind = .rightParen) (n : Nat)
    (acc : Array α) : (commaItems item n acc).runOn input s = (.ok acc, s) := by
  cases n with
  | zero => rfl
  | succ n =>
    unfold commaItems
    rw [runOn_bind_of_ok _ _ (check_of_kind hk), if_pos rfl]
    rfl

/-- A successful loop, given more rounds than tokens after the cursor, derives the items it read
from sound item reads. -/
theorem commaItems_sound
    (hsound : ∀ s x s', item.runOn input s = (.ok x, s') →
      rel s.pos x s'.pos ∧ s' = { s with pos := s'.pos })
    (hlt : ∀ i x k, rel i x k → i < k) (n : Nat) :
    ∀ (acc r : Array α) (s s' : ParseState), input.lastIndex - s.pos < n →
      (commaItems item n acc).runOn input s = (.ok r, s') →
      ∃ xs, r = acc ++ xs.toArray ∧ input.ItemsAt .rightParen rel s.pos xs s'.pos ∧
        s' = { s with pos := s'.pos } := by
  induction n with
  | zero => intro _ _ _ _ hn; omega
  | succ n ih =>
    intro acc r s s' hn h
    unfold commaItems at h
    by_cases hclose : (input.tokenAt s.pos).kind = .rightParen
    · rw [runOn_bind_of_ok _ _ (check_of_kind hclose), if_pos rfl] at h
      cases h
      exact ⟨[], by simp, .close hclose, rfl⟩
    rw [runOn_bind_of_ok _ _ (check_of_ne hclose), if_neg Bool.false_ne_true, runOn_bind] at h
    rcases hx : item.runOn input s with ⟨_ | x, s₁⟩ <;> rw [hx] at h
    · cases h
    obtain ⟨hrel, hs₁⟩ := hsound s x s₁ hx
    have hlt₁ := hlt _ _ _ hrel
    rcases separator_eq_ok hin h with ⟨hcomma, h⟩ | ⟨hclose₁, h⟩
    · -- a comma: the rest is read from the token after it, with a round less
      have hlast := lt_lastIndex_of_kind hin hcomma (by decide)
      obtain ⟨xs, rfl, hitems, hs'⟩ := ih _ r _ s' (by simp only; omega) h
      refine ⟨x :: xs, by simp, ?_, ?_⟩
      · rw [hs₁] at hitems
        exact .comma hrel hcomma hitems
      · rw [hs', hs₁]
    · -- the `)` ends the loop in the next round
      rw [commaItems_at_close hclose₁] at h
      cases h
      exact ⟨[x], by simp, .last hrel hclose₁, hs₁⟩

/-- Items followed by their `)` are read exactly, given more rounds than the tokens they span,
from item reads that are exact before a comma or `)`. -/
theorem commaItems_complete
    (hcomplete : ∀ s i x k, rel i x k → input.Closes .rightParen k → s.pos = i →
      item.runOn input s = (.ok x, { s with pos := k }))
    (hlt : ∀ i x k, rel i x k → i < k)
    (hstart : ∀ i x k, rel i x k → (input.tokenAt i).kind ≠ .rightParen)
    {i j : Nat} {xs : List α} (h : input.ItemsAt .rightParen rel i xs j) :
    ∀ (n : Nat) (acc : Array α) (s : ParseState), s.pos = i → j - i < n →
      (commaItems item n acc).runOn input s = (.ok (acc ++ xs.toArray), { s with pos := j }) := by
  induction h with
  | close hclose =>
    intro n acc s hs _
    subst hs
    rw [commaItems_at_close hclose]
    simp
  | last hrel hclose =>
    intro n acc s hs hn
    subst hs
    obtain ⟨n, rfl⟩ : ∃ m, n = m + 1 := ⟨n - 1, by omega⟩
    unfold commaItems
    rw [runOn_bind_of_ok _ _ (check_of_ne (hstart _ _ _ hrel)), if_neg Bool.false_ne_true,
      runOn_bind_of_ok _ _ (hcomplete s _ _ _ hrel (.inr hclose) rfl),
      runOn_bind_of_ok _ _ (eat_of_ne (s := { s with pos := _ }) (by rw [hclose]; decide))]
    dsimp only
    rw [Bool.not_false, if_pos rfl,
      runOn_bind_of_ok _ _ (check_of_kind (s := { s with pos := _ }) hclose), Bool.not_true,
      if_neg Bool.false_ne_true, commaItems_at_close (s := { s with pos := _ }) hclose]
    simp
  | @comma i k j x xs hrel hcomma hrest ih =>
    intro n acc s hs hn
    subst hs
    have hlt₁ := hlt _ _ _ hrel
    have hle := hrest.le hlt
    obtain ⟨n, rfl⟩ : ∃ m, n = m + 1 := ⟨n - 1, by omega⟩
    unfold commaItems
    rw [runOn_bind_of_ok _ _ (check_of_ne (hstart _ _ _ hrel)), if_neg Bool.false_ne_true,
      runOn_bind_of_ok _ _ (hcomplete s _ _ _ hrel (.inl hcomma) rfl),
      runOn_bind_of_ok _ _ (eat_of_kind (s := { s with pos := _ }) hcomma)]
    dsimp only
    rw [Bool.not_true, if_neg Bool.false_ne_true, next_of_kind hin hcomma (by decide),
      ih n (acc.push x) { s with pos := k + 1 } rfl (by omega)]
    simp

end Items

/-! ## Decorators and decorator lists -/

/-- A successful read of a decorator derives it. -/
theorem decorator_sound {d : Decorator} {s' : ParseState}
    (h : decorator.runOn input s = (.ok d, s')) :
    input.DecoratorAt s.pos d s'.pos ∧ s' = { s with pos := s'.pos } := by
  unfold decorator at h
  by_cases hid : (input.tokenAt s.pos).kind = .identifier
  · rw [runOn_bind_of_ok _ _ (check_of_kind hid), Bool.not_true, if_neg Bool.false_ne_true,
      runOn_bind_of_ok _ _ (runOn_advance _ _), next_of_kind hin hid (by decide)] at h
    by_cases hopen : (input.tokenAt (s.pos + 1)).kind = .leftParen
    · rw [runOn_bind_of_ok _ _ (eat_of_kind (s := { s with pos := s.pos + 1 }) hopen),
        next_of_kind hin hopen (by decide), if_pos rfl, runOn_bind_of_ok _ _ (runOn_rounds _ _),
        runOn_bind] at h
      rcases hv : (commaItems decoratorValue (input.tokens.size + 1) #[]).runOn input
          { s with pos := s.pos + 1 + 1 } with ⟨_ | vs, s₁⟩ <;> rw [hv] at h
      · cases h
      -- the values run up to a `)`, which the decorator then takes
      obtain ⟨xs, rfl, hitems, hs₁⟩ := commaItems_sound hin (fun _ _ _ hx => decoratorValue_sound hin hx)
        (fun _ _ _ hx => hx.lt) _ _ _ _ s₁ (by simp only [ParseInput.lastIndex]; omega) hv
      dsimp only at h
      by_cases hclose : (input.tokenAt s₁.pos).kind = .rightParen
      · rw [runOn_bind_of_ok _ _ (expect_of_kind hclose), next_of_kind hin hclose (by decide)] at h
        cases h
        refine ⟨by simpa using DecoratorAt.valued hid hopen hitems, ?_⟩
        rw [hs₁]
      · rw [runOn_bind_of_error _ _ (expect_of_ne hclose)] at h
        cases h
    · rw [runOn_bind_of_ok _ _ (eat_of_ne (s := { s with pos := s.pos + 1 }) hopen),
        if_neg Bool.false_ne_true] at h
      cases h
      exact ⟨.bare hid, rfl⟩
  · rw [runOn_bind_of_ok _ _ (check_of_ne hid), Bool.not_false, if_pos rfl,
      runOn_bind_of_error _ _ (runOn_fail _ _ _)] at h
    cases h

/-- A decorator followed by a comma or `)` is read exactly. -/
theorem decorator_complete {i j : Nat} {d : Decorator} (h : input.DecoratorAt i d j)
    (hj : input.Closes .rightParen j) (hs : s.pos = i) :
    decorator.runOn input s = (.ok d, { s with pos := j }) := by
  subst hs
  unfold decorator
  cases h with
  | bare hid =>
    have hopen : (input.tokenAt (s.pos + 1)).kind ≠ .leftParen := by
      rcases hj with hj | hj <;> rw [hj] <;> decide
    rw [runOn_bind_of_ok _ _ (check_of_kind hid), Bool.not_true, if_neg Bool.false_ne_true,
      runOn_bind_of_ok _ _ (runOn_advance _ _), next_of_kind hin hid (by decide),
      runOn_bind_of_ok _ _ (eat_of_ne (s := { s with pos := s.pos + 1 }) hopen),
      if_neg Bool.false_ne_true]
    rfl
  | @valued k vs hid hopen hvs =>
    have hclose := hvs.closes
    have hlt := lt_lastIndex_of_kind hin hclose (by decide)
    have hsize : input.lastIndex < input.tokens.size := by
      have := input.nonempty
      simp only [ParseInput.lastIndex]
      omega
    rw [runOn_bind_of_ok _ _ (check_of_kind hid), Bool.not_true, if_neg Bool.false_ne_true,
      runOn_bind_of_ok _ _ (runOn_advance _ _), next_of_kind hin hid (by decide),
      runOn_bind_of_ok _ _ (eat_of_kind (s := { s with pos := s.pos + 1 }) hopen),
      next_of_kind hin hopen (by decide), if_pos rfl, runOn_bind_of_ok _ _ (runOn_rounds _ _),
      runOn_bind_of_ok _ _ (commaItems_complete hin
        (fun _ _ _ _ hx hk hs => decoratorValue_complete hin hx hk hs) (fun _ _ _ hx => hx.lt)
        (fun _ _ _ hx => hx.not_close) hvs _ #[] { s with pos := s.pos + 1 + 1 } rfl (by omega)),
      runOn_bind_of_ok _ _ (expect_of_kind (s := { s with pos := k }) hclose),
      next_of_kind hin hclose (by decide)]
    simp

/-- A successful read of a decorator list derives it. -/
theorem decoratorList_sound {l : DecoratorList} {s' : ParseState}
    (h : decoratorList.runOn input s = (.ok l, s')) :
    input.DecoratorListAt s.pos l s'.pos ∧ s' = { s with pos := s'.pos } := by
  unfold decoratorList at h
  by_cases hopen : (input.tokenAt s.pos).kind = .leftParen
  · rw [runOn_bind_of_ok _ _ (expect_of_kind hopen), next_of_kind hin hopen (by decide),
      runOn_bind_of_ok _ _ (runOn_rounds _ _), runOn_bind] at h
    rcases hd : (commaItems decorator (input.tokens.size + 1) #[]).runOn input
        { s with pos := s.pos + 1 } with ⟨_ | ds, s₁⟩ <;> rw [hd] at h
    · cases h
    obtain ⟨xs, rfl, hitems, hs₁⟩ := commaItems_sound hin (fun _ _ _ hx => decorator_sound hin hx)
      (fun _ _ _ hx => hx.lt) _ _ _ _ s₁ (by simp only [ParseInput.lastIndex]; omega) hd
    dsimp only at h
    by_cases hclose : (input.tokenAt s₁.pos).kind = .rightParen
    · rw [runOn_bind_of_ok _ _ (expect_of_kind hclose), next_of_kind hin hclose (by decide)] at h
      cases h
      refine ⟨by simpa using DecoratorListAt.mk hopen hitems, ?_⟩
      rw [hs₁]
    · rw [runOn_bind_of_error _ _ (expect_of_ne hclose)] at h
      cases h
  · rw [runOn_bind_of_error _ _ (expect_of_ne hopen)] at h
    cases h

/-- A derived decorator list is read exactly. -/
theorem decoratorList_complete {i j : Nat} {l : DecoratorList} (h : input.DecoratorListAt i l j)
    (hs : s.pos = i) : decoratorList.runOn input s = (.ok l, { s with pos := j }) := by
  subst hs
  cases h with
  | @mk k ds hopen hds =>
    have hclose := hds.closes
    have hlt := lt_lastIndex_of_kind hin hclose (by decide)
    have hsize : input.lastIndex < input.tokens.size := by
      have := input.nonempty
      simp only [ParseInput.lastIndex]
      omega
    unfold decoratorList
    rw [runOn_bind_of_ok _ _ (expect_of_kind hopen), next_of_kind hin hopen (by decide),
      runOn_bind_of_ok _ _ (runOn_rounds _ _),
      runOn_bind_of_ok _ _ (commaItems_complete hin
        (fun _ _ _ _ hx hk hs => decorator_complete hin hx hk hs) (fun _ _ _ hx => hx.lt)
        (fun _ _ _ hx => hx.not_close) hds _ #[] { s with pos := s.pos + 1 } rfl (by omega)),
      runOn_bind_of_ok _ _ (expect_of_kind (s := { s with pos := k }) hclose),
      next_of_kind hin hclose (by decide)]
    simp

end Reads

/-- The decorator-list parser accepts exactly the grammar of decorator lists. On a token stream
that ends with the end of input, it succeeds exactly when the tokens at the cursor begin with a
derivation; a successful read leaves the cursor right after its derivation, reports nothing and
returns the derivation's reading, and every derivation is read so. -/
theorem decoratorList_reads_grammar (hin : input.EndsWithEof) (s : ParseState) :
    ((∃ l s', decoratorList.runOn input s = (.ok l, s')) ↔ ∃ l j, input.DecoratorListAt s.pos l j) ∧
      ∀ l s', decoratorList.runOn input s = (.ok l, s') ↔
        input.DecoratorListAt s.pos l s'.pos ∧ s' = { s with pos := s'.pos } := by
  have hreads : ∀ l s', decoratorList.runOn input s = (.ok l, s') ↔
      input.DecoratorListAt s.pos l s'.pos ∧ s' = { s with pos := s'.pos } := by
    intro l s'
    constructor
    · exact decoratorList_sound hin
    · rintro ⟨hl, hs'⟩
      rw [hs']
      exact decoratorList_complete hin hl rfl
  refine ⟨⟨?_, ?_⟩, hreads⟩
  · rintro ⟨l, s', h⟩
    exact ⟨l, s'.pos, ((hreads l s').1 h).1⟩
  · rintro ⟨l, j, hl⟩
    exact ⟨l, _, decoratorList_complete hin hl rfl⟩

/-- The decorator list of a property with a range of two numbers, one negated and suffixed, and
a default that is a qualified name. It is the derivation read from its 17 tokens; the reading
keeps the minus sign and the qualified name, and drops the float suffix. -/
theorem decoratorList_reads_grammar_range :
    let input :=
      ParseInput.ofTokens (tokenize "(Range(-1.5f, 10), Default(EColor::Red))").tokens "t.h"
    let ds : DecoratorList := ⟨[⟨"Range", ["-1.5", "10"]⟩, ⟨"Default", ["EColor::Red"]⟩]⟩
    input.EndsWithEof ∧
      (decoratorList.runOn input ⟨0, .empty⟩).1.toOption = some ds ∧
      (decoratorList.runOn input ⟨0, .empty⟩).2.pos = 17 ∧
      input.DecoratorListAt 0 ds 17 ∧
      ((∃ l s', decoratorList.runOn input ⟨0, .empty⟩ = (.ok l, s')) ↔
        ∃ l j, input.DecoratorListAt 0 l j) ∧
      ∀ l s', decoratorList.runOn input ⟨0, .empty⟩ = (.ok l, s') ↔
        input.DecoratorListAt 0 l s'.pos ∧ s' = { (⟨0, .empty⟩ : ParseState) with pos := s'.pos } := by
  intro input ds
  have hin : input.EndsWithEof := ofTokens_endsWithEof _ _
  obtain ⟨hexists, hreads⟩ := decoratorList_reads_grammar hin ⟨0, .empty⟩
  have hresult : (decoratorList.runOn input ⟨0, .empty⟩).1.toOption = some ds := by decide +kernel
  have hpos : (decoratorList.runOn input ⟨0, .empty⟩).2.pos = 17 := by decide +kernel
  have hderived :=
    ((hreads ds (decoratorList.runOn input ⟨0, .empty⟩).2).1 (runOn_eq_of_toOption _ _ hresult)).1
  rw [hpos] at hderived
  exact ⟨hin, hresult, hpos, hderived, hexists, hreads⟩

end Parser

end TypeReflection
