import TypeReflection.Proofs.Parse.DecoratorGrammar
import TypeReflection.Proofs.Parse.Braces
import Mathlib.Data.Nat.Digits.Defs
import Mathlib.Data.List.Forall2

/-!
# Enum values

A reflected enum lists its enumerators between braces, each a name with an optional initializer:

```
E ::= '{' [N {',' N} [',']] '}'
N ::= Identifier ['=' ['-'] Number]
```

The number must be an integer literal, decimal or hexadecimal after `0x` or `0X`, of at most
`maxInt64`. An enumerator with an initializer takes its value, negated after the minus; one
without takes the value after the previous enumerator's, stopping at `maxInt64`, and the first
takes zero.

The literals are stated on their own (`IntLiteral`, valued through `Nat.ofDigits`), and
`enumLiteral` reads exactly those of at most `maxInt64`. The enumerators are stated as relations
on token positions, like the decorator grammar, and so is the head of an enum up to its `{`
(`EnumHeadAt`). The enum reader is followed in both directions: a successful read derives its
head and enumerators (`enumDecl_sound`), and a derived head is read up to the enumerators
(`enumDecl_head_complete`). The reader's join points are met by lemmas that take the rest of the
reading as a continuation (`scoped_sound`, `underlying_sound` and their partners).

Main statement: `enumDecl_numbers_values`. On every token stream that ends with the end of input,
the values of an enum read successfully follow its initializers and the numbering rule and lie
between `-maxInt64` and `maxInt64`, so that no negation or increment leaves the signed 64-bit
range and no value is its least element; and an initializer whose number is no such literal makes
the read fail with an invalid-value error naming that number.
-/

set_option autoImplicit false

namespace TypeReflection

/-- `c` is a decimal digit of value `d`. -/
def DecimalDigit (c : Char) (d : Nat) : Prop :=
  '0' ≤ c ∧ c ≤ '9' ∧ d = c.toNat - '0'.toNat

/-- `c` is a hexadecimal digit of value `d`: a decimal digit, or a letter from `a` to `f` in
either case standing for ten to fifteen. -/
def HexDigit (c : Char) (d : Nat) : Prop :=
  DecimalDigit c d ∨ ('a' ≤ c ∧ c ≤ 'f' ∧ d = c.toNat - 'a'.toNat + 10) ∨
    ('A' ≤ c ∧ c ≤ 'F' ∧ d = c.toNat - 'A'.toNat + 10)

/-- `text` is an integer literal of value `n`: decimal digits, or hexadecimal digits after `0x`
or `0X`, the most significant first. -/
inductive IntLiteral (text : String) : Nat → Prop
  | decimal {ds : List Nat} : text.toList ≠ [] → List.Forall₂ DecimalDigit text.toList ds →
      IntLiteral text (Nat.ofDigits 10 ds.reverse)
  | hex {x : Char} {cs : List Char} {ds : List Nat} : (x = 'x' ∨ x = 'X') →
      text.toList = '0' :: x :: cs → cs ≠ [] → List.Forall₂ HexDigit cs ds →
      IntLiteral text (Nat.ofDigits 16 ds.reverse)

/-- What `digitValue` computes, on character codes: a decimal digit, or a letter standing for
ten and up, whichever is below the base. -/
theorem digitValue_eq_some {base : Nat} {c : Char} {d : Nat} :
    digitValue base c = some d ↔ d < base ∧
      ((48 ≤ c.toNat ∧ c.toNat ≤ 57 ∧ d = c.toNat - 48) ∨
        (97 ≤ c.toNat ∧ c.toNat ≤ 122 ∧ d = c.toNat - 97 + 10) ∨
        (65 ≤ c.toNat ∧ c.toNat ≤ 90 ∧ d = c.toNat - 65 + 10)) := by
  have hval : ∀ ch : Char, ch.val.toNat = ch.toNat := fun _ => rfl
  have h0 : '0'.toNat = 48 := rfl
  have h9 : '9'.toNat = 57 := rfl
  have ha : 'a'.toNat = 97 := rfl
  have hz : 'z'.toNat = 122 := rfl
  have hA : 'A'.toNat = 65 := rfl
  have hZ : 'Z'.toNat = 90 := rfl
  simp only [digitValue, Char.isDigit, Char.le_def, UInt32.le_iff_toNat_le, hval, h0, h9, ha, hz,
    hA, hZ]
  split_ifs with h1 h2 h3 <;> simp [Option.filter] at * <;> omega

theorem digitValue_ten {c : Char} {d : Nat} : digitValue 10 c = some d ↔ DecimalDigit c d := by
  have hval : ∀ ch : Char, ch.val.toNat = ch.toNat := fun _ => rfl
  simp only [digitValue_eq_some, DecimalDigit, Char.le_def, UInt32.le_iff_toNat_le, hval]
  have h0 : '0'.toNat = 48 := rfl
  have h9 : '9'.toNat = 57 := rfl
  rw [h0, h9]
  omega

theorem digitValue_sixteen {c : Char} {d : Nat} : digitValue 16 c = some d ↔ HexDigit c d := by
  have hval : ∀ ch : Char, ch.val.toNat = ch.toNat := fun _ => rfl
  simp only [digitValue_eq_some, HexDigit, DecimalDigit, Char.le_def, UInt32.le_iff_toNat_le, hval]
  have h0 : '0'.toNat = 48 := rfl
  have h9 : '9'.toNat = 57 := rfl
  have ha : 'a'.toNat = 97 := rfl
  have hf : 'f'.toNat = 102 := rfl
  have hA : 'A'.toNat = 65 := rfl
  have hF : 'F'.toNat = 70 := rfl
  rw [h0, h9, ha, hf, hA, hF]
  omega

/-- Reading digits after the value `acc` shifts `acc` one place per digit and adds the value of
the digits, the most significant first. -/
theorem digitsValue_eq_some {base acc v : Nat} {cs : List Char} :
    digitsValue base acc cs = some v ↔
      ∃ ds, List.Forall₂ (fun c d => digitValue base c = some d) cs ds ∧
        v = acc * base ^ cs.length + Nat.ofDigits base ds.reverse := by
  induction cs generalizing acc with
  | nil => simp [digitsValue, eq_comm]
  | cons c cs ih =>
    simp only [digitsValue, Option.bind_eq_some_iff, ih, List.forall₂_cons_left_iff]
    constructor
    · rintro ⟨d, hd, ds, hds, rfl⟩
      refine ⟨d :: ds, ⟨d, ds, hd, hds, rfl⟩, ?_⟩
      rw [List.reverse_cons, Nat.ofDigits_append, Nat.ofDigits_singleton, List.length_reverse,
        List.length_cons, ← hds.length_eq, pow_succ]
      ring
    · rintro ⟨_, ⟨d, ds, hd, hds, rfl⟩, rfl⟩
      refine ⟨d, hd, ds, hds, ?_⟩
      rw [List.reverse_cons, Nat.ofDigits_append, Nat.ofDigits_singleton, List.length_reverse,
        List.length_cons, ← hds.length_eq, pow_succ]
      ring

/-- After `0x` or `0X`, a literal is a nonempty run of hexadecimal digits. -/
theorem intLiteral_hex_iff {text : String} {x : Char} {cs : List Char} {n : Nat}
    (hx : x = 'x' ∨ x = 'X') (h : text.toList = '0' :: x :: cs) :
    IntLiteral text n ↔
      cs ≠ [] ∧ ∃ ds, List.Forall₂ HexDigit cs ds ∧ n = Nat.ofDigits 16 ds.reverse := by
  constructor
  · rintro (⟨-, hds⟩ | ⟨-, h', hne, hds⟩)
    · -- the `x` after the leading zero is no decimal digit
      rw [h] at hds
      obtain ⟨-, ⟨d, hd⟩, -⟩ : _ ∧ (∃ d, DecimalDigit x d) ∧ _ := by
        cases hds with
        | cons _ hrest => cases hrest with
          | cons hd _ => exact ⟨trivial, ⟨_, hd⟩, trivial⟩
      rcases hx with rfl | rfl <;> exact absurd hd.2.1 (by decide)
    · rw [h, List.cons.injEq, List.cons.injEq] at h'
      obtain ⟨-, rfl, rfl⟩ := h'
      exact ⟨hne, _, hds, rfl⟩
  · rintro ⟨hne, ds, hds, rfl⟩
    exact .hex hx h hne hds

/-- Without a hexadecimal prefix, a literal is a nonempty run of decimal digits. -/
theorem intLiteral_decimal_iff {text : String} {n : Nat}
    (h : ∀ x cs, text.toList = '0' :: x :: cs → x ≠ 'x' ∧ x ≠ 'X') :
    IntLiteral text n ↔ text.toList ≠ [] ∧
      ∃ ds, List.Forall₂ DecimalDigit text.toList ds ∧ n = Nat.ofDigits 10 ds.reverse := by
  constructor
  · rintro (⟨hne, hds⟩ | ⟨hx, h', -, -⟩)
    · exact ⟨hne, _, hds, rfl⟩
    · have := h _ _ h'
      rcases hx with rfl | rfl <;> simp at this
  · rintro ⟨hne, ds, hds, rfl⟩
    exact .decimal hne hds

/-- The value of a run of decimal digits. -/
theorem digitsValue_ten_eq_some {cs : List Char} {n : Nat} :
    digitsValue 10 0 cs = some n ↔
      ∃ ds, List.Forall₂ DecimalDigit cs ds ∧ n = Nat.ofDigits 10 ds.reverse := by
  simp only [digitsValue_eq_some, digitValue_ten, zero_mul, zero_add]

/-- The value of a run of hexadecimal digits. -/
theorem digitsValue_sixteen_eq_some {cs : List Char} {n : Nat} :
    digitsValue 16 0 cs = some n ↔
      ∃ ds, List.Forall₂ HexDigit cs ds ∧ n = Nat.ofDigits 16 ds.reverse := by
  simp only [digitsValue_eq_some, digitValue_sixteen, zero_mul, zero_add]

/-- `enumLiteral` reads exactly the integer literals up to `maxInt64`. -/
theorem enumLiteral_eq_some_iff {text : String} {v : Int} :
    enumLiteral text = some v ↔ ∃ n, IntLiteral text n ∧ (n : Int) ≤ maxInt64 ∧ v = n := by
  unfold enumLiteral
  split
  next base digits h =>
  simp only [List.isEmpty_iff]
  -- the literals are what the digits after the prefix read to; then comes the bound
  suffices hdigits : ∀ m, IntLiteral text m ↔
      (if digits = [] then none else digitsValue base 0 digits) = some m by
    cases hX : (if digits = [] then none else digitsValue base 0 digits) with
    | none => simp only [hdigits, hX, reduceCtorEq, false_and, exists_false]
    | some n =>
      simp only [hdigits, hX, Option.some.injEq, exists_eq_left']
      rw [Option.ite_none_right_eq_some, Option.some.injEq, eq_comm]
  intro m
  rw [Option.ite_none_left_eq_some]
  split at h
  · next x rest htext =>
    split at h
    · next hx =>
      cases h
      have hx' : x = 'x' ∨ x = 'X' := by simpa using hx
      rw [intLiteral_hex_iff hx' htext, digitsValue_sixteen_eq_some]
    · next hx =>
      cases h
      have hdec : ∀ y cs, text.toList = '0' :: y :: cs → y ≠ 'x' ∧ y ≠ 'X' := by
        intro y cs hy
        rw [htext, List.cons.injEq, List.cons.injEq] at hy
        obtain ⟨-, rfl, -⟩ := hy
        simpa using hx
      rw [intLiteral_decimal_iff hdec, digitsValue_ten_eq_some]
  · next hnot =>
    cases h
    have hdec : ∀ y cs, text.toList = '0' :: y :: cs → y ≠ 'x' ∧ y ≠ 'X' :=
      fun y cs hy => absurd hy (hnot y cs)
    rw [intLiteral_decimal_iff hdec, digitsValue_ten_eq_some]

example : enumLiteral "0x7FFFFFFFFFFFFFFF" = some maxInt64 := by decide

example : enumLiteral "9223372036854775808" = none := by decide

example : enumLiteral "1.5" = none := by decide

/-- An enumerator as written: its name and the value of its initializer, if it has one. -/
structure Enumerator where
  name : String
  init : Option Int

/-- The entries that enumerators number to: an initializer gives its value, and an enumerator
without one takes `next`, where each entry's successor is the default of the entry after it. -/
def numberEnumerators (next : Int) : List Enumerator → List EnumEntry
  | [] => []
  | e :: es =>
    ⟨e.name, e.init.getD next⟩ :: numberEnumerators (nextEnumValue (e.init.getD next)) es

/-- The value after one in the range of enum values is in that range. -/
theorem nextEnumValue_bounded {v : Int} (h : -maxInt64 ≤ v ∧ v ≤ maxInt64) :
    -maxInt64 ≤ nextEnumValue v ∧ nextEnumValue v ≤ maxInt64 := by
  unfold nextEnumValue
  omega

@[simp] theorem length_numberEnumerators (next : Int) (es : List Enumerator) :
    (numberEnumerators next es).length = es.length := by
  induction es generalizing next with
  | nil => rfl
  | cons e es ih => simp [numberEnumerators, ih]

theorem map_name_numberEnumerators (next : Int) (es : List Enumerator) :
    (numberEnumerators next es).map (·.name) = es.map (·.name) := by
  induction es generalizing next with
  | nil => rfl
  | cons e es ih => simp [numberEnumerators, ih]

/-- The value of the `k`-th entry: its initializer's value when it has one; otherwise `next` for
the first entry and the successor of the entry before it for the others. -/
theorem getElem_numberEnumerators_value (next : Int) (es : List Enumerator) (k : Nat)
    (hk : k < (numberEnumerators next es).length) :
    (numberEnumerators next es)[k].value = (es[k]?.bind (·.init)).getD
      (if k = 0 then next else nextEnumValue (numberEnumerators next es)[k - 1].value) := by
  induction es generalizing next k with
  | nil => simp at hk
  | cons e es ih =>
    cases k with
    | zero => simp [numberEnumerators]
    | succ k =>
      -- the entries after the first are numbered from the first one's successor
      have hk' : k < (numberEnumerators (nextEnumValue (e.init.getD next)) es).length := by
        simpa [numberEnumerators] using hk
      simp only [numberEnumerators, List.getElem_cons_succ, List.getElem?_cons_succ,
        ih _ k hk', Nat.add_one_ne_zero, if_false, Nat.add_sub_cancel]
      cases k with
      | zero => simp
      | succ k => simp

/-- Entries numbered from a value in range, with initializers in range, are all in range. -/
theorem numberEnumerators_bounded {next : Int} {es : List Enumerator}
    (hnext : -maxInt64 ≤ next ∧ next ≤ maxInt64)
    (hes : ∀ e ∈ es, ∀ v, e.init = some v → -maxInt64 ≤ v ∧ v ≤ maxInt64) :
    ∀ x ∈ numberEnumerators next es, -maxInt64 ≤ x.value ∧ x.value ≤ maxInt64 := by
  induction es generalizing next with
  | nil => simp [numberEnumerators]
  | cons e es ih =>
    -- the first value is the initializer's or `next`, and it numbers the rest
    have hfirst : -maxInt64 ≤ e.init.getD next ∧ e.init.getD next ≤ maxInt64 := by
      cases hinit : e.init with
      | none => exact hnext
      | some v => exact hes e (by simp) v hinit
    intro x hx
    rcases List.mem_cons.1 hx with rfl | hx
    · exact hfirst
    · exact ih (nextEnumValue_bounded hfirst) (fun e' he' => hes e' (by simp [he'])) x hx

namespace ParseInput

variable (input : ParseInput)

/-- An initializer's value from `i` to `j`: an integer literal of at most `maxInt64`, negated
when a minus precedes it. -/
inductive InitializerAt : Nat → Int → Nat → Prop
  | plain {i n : Nat} : (input.tokenAt i).kind = .number → IntLiteral (input.tokenAt i).text n →
      (n : Int) ≤ maxInt64 → InitializerAt i n (i + 1)
  | negated {i n : Nat} : (input.tokenAt i).kind = .minus →
      (input.tokenAt (i + 1)).kind = .number → IntLiteral (input.tokenAt (i + 1)).text n →
      (n : Int) ≤ maxInt64 → InitializerAt i (-n) (i + 2)

/-- An enumerator from `i` to `j`: a name, and after `=` an initializer when it has one. -/
inductive EnumeratorAt : Nat → Enumerator → Nat → Prop
  | implicit {i : Nat} : (input.tokenAt i).kind = .identifier →
      EnumeratorAt i ⟨(input.tokenAt i).text, none⟩ (i + 1)
  | explicit {i j : Nat} {v : Int} : (input.tokenAt i).kind = .identifier →
      (input.tokenAt (i + 1)).kind = .equal → input.InitializerAt (i + 2) v j →
      EnumeratorAt i ⟨(input.tokenAt i).text, some v⟩ j

/-- Enumerators derived by `item`, each followed by a comma, from `i` up to `j`. -/
inductive SeparatedAt {α : Type} (item : Nat → α → Nat → Prop) :
    Nat → List α → Nat → Prop
  | nil (i : Nat) : SeparatedAt item i [] i
  | cons {i k j : Nat} {x : α} {xs : List α} : item i x k → (input.tokenAt k).kind = .comma →
      SeparatedAt item (k + 1) xs j → SeparatedAt item i (x :: xs) j

/-- The head of a reflected enum, from its marker at `i` to the `{` at `o` that opens its
enumerators: the marker, a decorator list, an optional `;`, `enum`, an optional `class` or
`struct`, one or more names, and then the `{`, or a `:` and an underlying type up to the `{`
that holds no `;` and does not reach the end of input. -/
inductive EnumHeadAt (i : Nat) : Nat → Prop
  | mk {l : DecoratorList} {a b c e o : Nat} :
      (input.tokenAt i).kind = .enumMarker →
      input.DecoratorListAt (i + 1) l a →
      (b = a ∨ (input.tokenAt a).kind = .semicolon ∧ b = a + 1) →
      (input.tokenAt b).kind = .kwEnum →
      (c = b + 1 ∨ ((input.tokenAt (b + 1)).kind = .kwClass ∨
        (input.tokenAt (b + 1)).kind = .kwStruct) ∧ c = b + 2) →
      c < e → (∀ m, c ≤ m → m < e → (input.tokenAt m).kind = .identifier) →
      ((input.tokenAt e).kind = .leftBrace ∧ o = e ∨
        (input.tokenAt e).kind = .colon ∧ e < o ∧ (input.tokenAt o).kind = .leftBrace ∧
          ∀ m, e < m → m < o → (input.tokenAt m).kind ≠ .leftBrace ∧
            (input.tokenAt m).kind ≠ .semicolon ∧ (input.tokenAt m).kind ≠ .eof) →
      EnumHeadAt i o

variable {input}

/-- The names from `c` run up to the first token that is no name, at `e`: they are the first
`e - c` tokens from `c`. -/
theorem length_takeWhile_names {c e : Nat} (hce : c ≤ e) (he : e < input.tokens.size)
    (hrun : ∀ m, c ≤ m → m < e → (input.tokenAt m).kind = .identifier)
    (hstop : (input.tokenAt e).kind ≠ .identifier) :
    ((input.fromIndex c).takeWhile (·.kind == .identifier)).length = e - c := by
  obtain ⟨k, rfl⟩ : ∃ k, e = c + k := ⟨e - c, by omega⟩
  induction k generalizing c with
  | zero =>
    rw [input.fromIndex_eq_cons (by omega), List.takeWhile_cons, if_neg (by simpa using hstop)]
    simp
  | succ k ih =>
    have hc : (input.tokenAt c).kind = .identifier := hrun c (Nat.le_refl c) (by omega)
    rw [input.fromIndex_eq_cons (by omega), List.takeWhile_cons, if_pos (by simpa using hc),
      List.length_cons, ih (by omega) (by omega) (fun m h₁ h₂ => hrun m (by omega) (by omega))
        (by rwa [show c + 1 + k = c + (k + 1) by omega])]
    omega

/-- Names from `c` up to `e`, with at least one of them, have a last one. -/
theorem exists_lastName {c e : Nat} (hce : c < e) (he : e < input.tokens.size)
    (hrun : ∀ m, c ≤ m → m < e → (input.tokenAt m).kind = .identifier)
    (hstop : (input.tokenAt e).kind ≠ .identifier) :
    ∃ t, ((input.fromIndex c).takeWhile (·.kind == .identifier)).getLast? = some t := by
  refine Option.ne_none_iff_exists'.1 fun hnone => ?_
  have hlen := length_takeWhile_names hce.le he hrun hstop
  rw [List.getLast?_eq_none_iff.1 hnone] at hlen
  simp at hlen
  omega

/-- From a position at or before the end of input, the names run up to a token that is no
name, at or before the end of input. -/
theorem exists_namesEnd (hin : input.EndsWithEof) (c : Nat) (hc : c ≤ input.lastIndex) :
    ∃ e, c ≤ e ∧ e ≤ input.lastIndex ∧
      (∀ m, c ≤ m → m < e → (input.tokenAt m).kind = .identifier) ∧
      (input.tokenAt e).kind ≠ .identifier := by
  obtain ⟨k, hk⟩ : ∃ k, input.lastIndex - c = k := ⟨_, rfl⟩
  induction k generalizing c with
  | zero =>
    have hlast : c = input.lastIndex := by omega
    refine ⟨c, Nat.le_refl c, hc, fun m h₁ h₂ => absurd h₂ (by omega), ?_⟩
    rw [hlast, hin]
    decide
  | succ k ih =>
    by_cases hid : (input.tokenAt c).kind = .identifier
    · obtain ⟨e, h₁, h₂, hrun, hstop⟩ := ih (c + 1) (by omega) (by omega)
      refine ⟨e, by omega, h₂, fun m hm₁ hm₂ => ?_, hstop⟩
      rcases Nat.eq_or_lt_of_le hm₁ with rfl | hm₁
      · exact hid
      · exact hrun m hm₁ hm₂
    · exact ⟨c, Nat.le_refl c, hc, fun m h₁ h₂ => absurd h₂ (by omega), hid⟩

theorem InitializerAt.lt {i j : Nat} {v : Int} (h : input.InitializerAt i v j) : i < j := by
  cases h <;> omega

/-- An enumerator spans at least one token. -/
theorem EnumeratorAt.lt {i j : Nat} {e : Enumerator} (h : input.EnumeratorAt i e j) : i < j := by
  cases h with
  | implicit => omega
  | explicit _ _ hv => have := hv.lt; omega

theorem SeparatedAt.le {α : Type} {item : Nat → α → Nat → Prop}
    (hlt : ∀ i x k, item i x k → i < k) {i j : Nat} {xs : List α}
    (h : input.SeparatedAt item i xs j) : i ≤ j := by
  induction h with
  | nil => exact Nat.le_refl _
  | cons hx _ _ ih => have := hlt _ _ _ hx; omega

/-- A written value lies between `-maxInt64` and `maxInt64`. -/
theorem InitializerAt.bounded {i j : Nat} {v : Int} (h : input.InitializerAt i v j) :
    -maxInt64 ≤ v ∧ v ≤ maxInt64 := by
  have hmax : (0 : Int) ≤ maxInt64 := by unfold maxInt64; omega
  cases h with
  | plain _ _ hle => omega
  | negated _ _ _ hle => omega

/-- Every item of a list derives from some span. -/
theorem ItemsAt.derives {α : Type} {close : TokenKind} {item : Nat → α → Nat → Prop}
    {i j : Nat} {xs : List α} (h : input.ItemsAt close item i xs j) : ∀ x ∈ xs, ∃ a b, item a x b := by
  induction h with
  | close => simp
  | last hx => simpa using ⟨_, _, hx⟩
  | comma hx _ _ ih =>
    intro y hy
    rcases List.mem_cons.1 hy with rfl | hy
    · exact ⟨_, _, hx⟩
    · exact ih y hy

/-- An enumerator starts with its name. -/
theorem EnumeratorAt.identifier {i j : Nat} {e : Enumerator} (h : input.EnumeratorAt i e j) :
    (input.tokenAt i).kind = .identifier := by
  cases h with
  | implicit hk => exact hk
  | explicit hk => exact hk

/-- No enumerator starts with `}`. -/
theorem EnumeratorAt.not_close {i j : Nat} {e : Enumerator} (h : input.EnumeratorAt i e j) :
    (input.tokenAt i).kind ≠ .rightBrace := by
  cases h with
  | implicit hk => rw [hk]; decide
  | explicit hk => rw [hk]; decide

variable (input)

/-- At `i` stands an initializer whose number `t` is no integer literal of at most `maxInt64`. -/
def BadInitializerAt (i : Nat) (t : Token) : Prop :=
  ((input.tokenAt i).kind = .number ∧ t = input.tokenAt i ∨
    (input.tokenAt i).kind = .minus ∧ (input.tokenAt (i + 1)).kind = .number ∧
      t = input.tokenAt (i + 1)) ∧
  t.kind = .number ∧ ∀ n, IntLiteral t.text n → maxInt64 < n

end ParseInput

namespace Parser

open ParseInput

variable {α : Type} {input : ParseInput} {s : ParseState}

/-- A successful bind: its first step succeeded, and the rest succeeded from where it left the
cursor. -/
theorem runOn_bind_eq_ok {β : Type} {p : Parser α} {f : α → Parser β} {b : β} {s' : ParseState}
    (h : (p >>= f).runOn input s = (.ok b, s')) :
    ∃ a s₁, p.runOn input s = (.ok a, s₁) ∧ (f a).runOn input s₁ = (.ok b, s') := by
  rw [runOn_bind] at h
  rcases hp : p.runOn input s with ⟨_ | a, s₁⟩ <;> rw [hp] at h
  · cases h
  · exact ⟨a, s₁, rfl, h⟩

/-- What a successful `expect` did: its token was there, and the cursor moved past it. -/
theorem expect_eq_ok {k : TokenKind} {t : Token} {s' : ParseState}
    (h : (expect k).runOn input s = (.ok t, s')) :
    (input.tokenAt s.pos).kind = k ∧ t = input.tokenAt s.pos ∧
      s' = { s with pos := input.next s.pos } := by
  rw [runOn_expect] at h
  split at h
  · next hk =>
    cases h
    exact ⟨hk, rfl, rfl⟩
  · cases h

/-- What `eat` did: moved past its token when it was there, and otherwise nothing. -/
theorem eat_eq_ok {k : TokenKind} {x : Bool} {s' : ParseState}
    (h : (eat k).runOn input s = (.ok x, s')) :
    (input.tokenAt s.pos).kind = k ∧ x = true ∧ s' = { s with pos := input.next s.pos } ∨
      (input.tokenAt s.pos).kind ≠ k ∧ x = false ∧ s' = s := by
  rw [runOn_eat] at h
  split at h
  · next hk =>
    cases h
    exact .inl ⟨hk, rfl, rfl⟩
  · next hk =>
    cases h
    exact .inr ⟨hk, rfl, rfl⟩

/-- `class` or `struct` after `enum` is optional: the cursor moves past it when it is there, and
the reading goes on from there. -/
theorem scoped_sound {β : Type} (hin : input.EndsWithEof) (k : Bool → Parser β) {r : β}
    {s' : ParseState}
    (h : (eat .kwClass >>= fun x => if x = true then pure true >>= k else eat .kwStruct >>= k).runOn
      input s = (.ok r, s')) :
    ∃ (isScoped : Bool) (c : Nat),
      (((input.tokenAt s.pos).kind = .kwClass ∨ (input.tokenAt s.pos).kind = .kwStruct) ∧
          c = s.pos + 1 ∨
        (input.tokenAt s.pos).kind ≠ .kwClass ∧ (input.tokenAt s.pos).kind ≠ .kwStruct ∧
          c = s.pos) ∧
      (k isScoped).runOn input { s with pos := c } = (.ok r, s') := by
  by_cases hclass : (input.tokenAt s.pos).kind = .kwClass
  · rw [runOn_bind_of_ok _ _ (eat_of_kind hclass), if_pos rfl, runOn_bind_of_ok _ _ (runOn_pure _ _ _),
      next_of_kind hin hclass (by decide)] at h
    exact ⟨true, _, .inl ⟨.inl hclass, rfl⟩, h⟩
  · rw [runOn_bind_of_ok _ _ (eat_of_ne hclass), if_neg Bool.false_ne_true] at h
    by_cases hstruct : (input.tokenAt s.pos).kind = .kwStruct
    · rw [runOn_bind_of_ok _ _ (eat_of_kind hstruct), next_of_kind hin hstruct (by decide)] at h
      exact ⟨true, _, .inl ⟨.inr hstruct, rfl⟩, h⟩
    · rw [runOn_bind_of_ok _ _ (eat_of_ne hstruct)] at h
      exact ⟨false, _, .inr ⟨hclass, hstruct, rfl⟩, h⟩

/-- A scan for `target` from `i` finds it at the first `j` where it stands, when no token before
it stops the scan. -/
theorem scanTo_fromIndex_eq_found {target : TokenKind} {stops : TokenKind → Bool} {i j : Nat}
    (hij : i ≤ j) (hj : j < input.tokens.size) (hk : (input.tokenAt j).kind = target)
    (hpass : ∀ m, i ≤ m → m < j →
      (input.tokenAt m).kind ≠ target ∧ stops (input.tokenAt m).kind = false) :
    Scan.scanTo target stops (input.fromIndex i) i = .found j := by
  obtain ⟨k, rfl⟩ : ∃ k, j = i + k := ⟨j - i, by omega⟩
  induction k generalizing i with
  | zero =>
    rw [Nat.add_zero] at hk ⊢
    rw [input.fromIndex_eq_cons (by omega)]
    simp [Scan.scanTo, hk]
  | succ k ih =>
    obtain ⟨hne, hstop⟩ := hpass i (Nat.le_refl i) (by omega)
    rw [input.fromIndex_eq_cons (by omega)]
    simp only [Scan.scanTo, beq_iff_eq, hne, if_false, hstop, Bool.false_eq_true]
    rw [show i + (k + 1) = i + 1 + k by omega] at hj hk ⊢
    exact ih (by omega) hj hk fun m h₁ h₂ => hpass m (by omega) (by omega)

/-- A scan for `target` from `i` that finds it at `j` passed only tokens that neither are the
target nor stop it. -/
theorem scanTo_fromIndex_found {target : TokenKind} {stops : TokenKind → Bool} {i j : Nat}
    (h : Scan.scanTo target stops (input.fromIndex i) i = .found j) :
    i ≤ j ∧ j < input.tokens.size ∧ (input.tokenAt j).kind = target ∧
      ∀ m, i ≤ m → m < j →
        (input.tokenAt m).kind ≠ target ∧ stops (input.tokenAt m).kind = false := by
  obtain ⟨k, hk⟩ : ∃ k, input.tokens.size - i = k := ⟨_, rfl⟩
  induction k generalizing i with
  | zero =>
    -- no tokens are left to scan
    rw [ParseInput.fromIndex, List.drop_eq_nil_of_le (by simp; omega)] at h
    cases h
  | succ k ih =>
    rw [input.fromIndex_eq_cons (by omega)] at h
    rcases Scan.scanTo_cons target stops _ _ i with ⟨hfound, hkind⟩ | hcut | ⟨hstop, hnext⟩
    · rw [hfound] at h
      cases h
      exact ⟨Nat.le_refl _, by omega, hkind, fun m h₁ h₂ => absurd h₂ (by omega)⟩
    · rw [hcut] at h
      cases h
    · rw [hnext] at h
      have hne : (input.tokenAt i).kind ≠ target := by
        -- a target there would have been found there, before the index the scan went on from
        intro hkind
        have hself : Scan.scanTo target stops (input.tokenAt i :: input.fromIndex (i + 1)) i =
            .found i := by
          simp [Scan.scanTo, hkind]
        have hle := Scan.le_index_scanTo target stops (input.fromIndex (i + 1)) (i + 1)
        rw [← hnext, hself] at hle
        simp [Scan.Stop.index] at hle
      obtain ⟨hle, hlt, hkind, hpass⟩ := ih h (by omega)
      refine ⟨by omega, hlt, hkind, fun m h₁ h₂ => ?_⟩
      rcases Nat.eq_or_lt_of_le h₁ with rfl | h₁
      · exact ⟨hne, hstop⟩
      · exact hpass m h₁ h₂

/-- `class` or `struct` after `enum`, when there, is passed. -/
theorem scoped_complete {β : Type} (hin : input.EndsWithEof) (k : Bool → Parser β) {c : Nat}
    (hc : c = s.pos ∨ ((input.tokenAt s.pos).kind = .kwClass ∨
      (input.tokenAt s.pos).kind = .kwStruct) ∧ c = s.pos + 1)
    (hid : (input.tokenAt c).kind = .identifier) :
    (eat .kwClass >>= fun x => if x = true then pure true >>= k else eat .kwStruct >>= k).runOn
      input s = (k ((input.tokenAt s.pos).kind == .kwClass ||
        (input.tokenAt s.pos).kind == .kwStruct)).runOn input { s with pos := c } := by
  rcases hc with rfl | ⟨hk, rfl⟩
  · -- a name where the keyword would stand
    have hclass : (input.tokenAt s.pos).kind ≠ .kwClass := by rw [hid]; decide
    have hstruct : (input.tokenAt s.pos).kind ≠ .kwStruct := by rw [hid]; decide
    rw [runOn_bind_of_ok _ _ (eat_of_ne hclass), if_neg Bool.false_ne_true,
      runOn_bind_of_ok _ _ (eat_of_ne hstruct), hid]
    rfl
  · by_cases hclass : (input.tokenAt s.pos).kind = .kwClass
    · rw [runOn_bind_of_ok _ _ (eat_of_kind hclass), if_pos rfl,
        runOn_bind_of_ok _ _ (runOn_pure _ _ _), next_of_kind hin hclass (by decide)]
      simp [hclass]
    · have hstruct := hk.resolve_left hclass
      rw [runOn_bind_of_ok _ _ (eat_of_ne hclass), if_neg Bool.false_ne_true,
        runOn_bind_of_ok _ _ (eat_of_kind hstruct), next_of_kind hin hstruct (by decide)]
      simp [hstruct]

/-- A warning, given or not, changes only what was reported. -/
theorem warn_complete {β : Type} (c : Prop) [Decidable c] (message : String) (span : Span)
    (k : Unit → Parser β) :
    (if c then warn message span >>= k else k ()).runOn input s =
      (k ()).runOn input { pos := s.pos, diagnostics := if c then { s.diagnostics with
        warnings := s.diagnostics.warnings.push ⟨message, span, input.path⟩ }
        else s.diagnostics } := by
  split
  · rw [runOn_bind_of_ok _ _ (runOn_warn _ _ _ _)]
  · rfl

/-- An underlying type after `:` that runs up to a `{` with no `;` or end of input before it is
passed, up to the `{`. -/
theorem underlying_complete {β : Type} (hin : input.EndsWithEof) (k : Unit → Parser β) {p o : Nat}
    {d : Diagnostics}
    (h : (input.tokenAt p).kind = .leftBrace ∧ o = p ∨
      (input.tokenAt p).kind = .colon ∧ p < o ∧ (input.tokenAt o).kind = .leftBrace ∧
        ∀ m, p < m → m < o → (input.tokenAt m).kind ≠ .leftBrace ∧
          (input.tokenAt m).kind ≠ .semicolon ∧ (input.tokenAt m).kind ≠ .eof) :
    (eat .colon >>= fun x => if x = true then (position >>= fun here =>
        match Scan.scanTo .leftBrace (fun k => k == .eof || k == .semicolon) (input.fromIndex here)
          here with
        | .found i => seek i >>= k
        | .cut i => seek i >>= fun _ => fail "'\x7b'" >>= k) else k ()).runOn input
        { pos := p, diagnostics := d } =
      (k ()).runOn input { pos := o, diagnostics := d } := by
  rcases h with ⟨hbrace, hop⟩ | ⟨hcolon, hlt, hbrace, hpass⟩
  · subst o
    have hcolon : (input.tokenAt p).kind ≠ .colon := by rw [hbrace]; decide
    rw [runOn_bind_of_ok _ _ (eat_of_ne (s := { pos := p, diagnostics := d }) hcolon),
      if_neg Bool.false_ne_true]
  · have hol := lt_lastIndex_of_kind hin hbrace (by decide)
    have hscan : Scan.scanTo .leftBrace (fun k => k == .eof || k == .semicolon)
        (input.fromIndex (p + 1)) (p + 1) = .found o := by
      refine scanTo_fromIndex_eq_found (by omega) (by simp only [ParseInput.lastIndex] at hol; omega)
        hbrace fun m h₁ h₂ => ?_
      obtain ⟨hne, hsemi, heof⟩ := hpass m (by omega) h₂
      simp [hne, hsemi, heof]
    rw [runOn_bind_of_ok _ _ (eat_of_kind (s := { pos := p, diagnostics := d }) hcolon), if_pos rfl,
      next_of_kind hin hcolon (by decide), runOn_bind_of_ok _ _ (runOn_position _ _)]
    dsimp only
    rw [hscan, runOn_bind_of_ok _ _ (runOn_seek _ _ _), show min o input.lastIndex = o by omega]

/-- A warning, given or not, changes only what was reported. -/
theorem warn_sound {β : Type} (c : Prop) [Decidable c] (message : String) (span : Span)
    (k : Unit → Parser β) {r : β} {s' : ParseState}
    (h : (if c then warn message span >>= k else k ()).runOn input s = (.ok r, s')) :
    ∃ s₁ : ParseState, s₁.pos = s.pos ∧ (k ()).runOn input s₁ = (.ok r, s') := by
  split at h
  · rw [runOn_bind_of_ok _ _ (runOn_warn _ _ _ _)] at h
    exact ⟨_, by rfl, h⟩
  · exact ⟨s, rfl, h⟩

/-- An underlying type after `:` runs up to the first `{`, with no `;` or end of input before it;
without a `:` the reading goes on where it is. -/
theorem underlying_sound {β : Type} (hin : input.EndsWithEof) (k : Unit → Parser β) {r : β}
    {s' : ParseState}
    (h : (eat .colon >>= fun x => if x = true then (position >>= fun here =>
        match Scan.scanTo .leftBrace (fun k => k == .eof || k == .semicolon) (input.fromIndex here)
          here with
        | .found i => seek i >>= k
        | .cut i => seek i >>= fun _ => fail "'\x7b'" >>= k) else k ()).runOn input s = (.ok r, s')) :
    ∃ o, ((input.tokenAt s.pos).kind ≠ .colon ∧ o = s.pos ∨
        (input.tokenAt s.pos).kind = .colon ∧ s.pos < o ∧ (input.tokenAt o).kind = .leftBrace ∧
          ∀ m, s.pos < m → m < o → (input.tokenAt m).kind ≠ .leftBrace ∧
            (input.tokenAt m).kind ≠ .semicolon ∧ (input.tokenAt m).kind ≠ .eof) ∧
      (k ()).runOn input { s with pos := o } = (.ok r, s') := by
  by_cases hcolon : (input.tokenAt s.pos).kind = .colon
  · rw [runOn_bind_of_ok _ _ (eat_of_kind hcolon), if_pos rfl, next_of_kind hin hcolon (by decide),
      runOn_bind_of_ok _ _ (runOn_position _ _)] at h
    dsimp only at h
    cases hscan : Scan.scanTo .leftBrace (fun k => k == .eof || k == .semicolon)
        (input.fromIndex (s.pos + 1)) (s.pos + 1) with
    | found o =>
      rw [hscan] at h
      obtain ⟨hle, hlt, hbrace, hpass⟩ := scanTo_fromIndex_found hscan
      rw [runOn_bind_of_ok _ _ (runOn_seek _ _ _),
        show min o input.lastIndex = o by simp only [ParseInput.lastIndex]; omega] at h
      refine ⟨o, .inr ⟨hcolon, by omega, hbrace, fun m h₁ h₂ => ?_⟩, h⟩
      obtain ⟨hne, hstop⟩ := hpass m h₁ h₂
      simp only [Bool.or_eq_false_iff, beq_eq_false_iff_ne] at hstop
      exact ⟨hne, hstop.2, hstop.1⟩
    | cut i =>
      rw [hscan] at h
      rw [runOn_bind_of_ok _ _ (runOn_seek _ _ _), runOn_bind_of_error _ _ (runOn_fail _ _ _)] at h
      cases h
  · rw [runOn_bind_of_ok _ _ (eat_of_ne hcolon), if_neg Bool.false_ne_true] at h
    exact ⟨s.pos, .inl ⟨hcolon, rfl⟩, h⟩

/-- After its optional minus, an enum value is one number token, read by `enumLiteral`: its
value, negated after a minus, or an invalid-value error naming the token. -/
theorem enumValue_at_number (hin : input.EndsWithEof) {negative : Bool} {p : Nat}
    (hneg : (input.tokenAt s.pos).kind = .minus ↔ negative = true)
    (hp : p = if negative then s.pos + 1 else s.pos) (hn : (input.tokenAt p).kind = .number) :
    enumValue.runOn input s = match enumLiteral (input.tokenAt p).text with
      | some w => (.ok (if negative then -w else w), { s with pos := p + 1 })
      | none => (.error ⟨.invalidEnumValue (input.tokenAt p).text, (input.tokenAt p).span,
          input.path⟩, { s with pos := p + 1 }) := by
  unfold enumValue
  have hmove : ∃ s₁ : ParseState, (eat .minus).runOn input s = (.ok negative, s₁) ∧
      s₁ = { s with pos := p } := by
    cases negative with
    | false => exact ⟨s, eat_of_ne (fun h => absurd (hneg.1 h) Bool.false_ne_true), by simp [hp]⟩
    | true =>
      have hm := hneg.2 rfl
      exact ⟨_, eat_of_kind hm, by rw [next_of_kind hin hm (by decide), hp, if_pos rfl]⟩
  obtain ⟨s₁, hrun, rfl⟩ := hmove
  rw [runOn_bind_of_ok _ _ hrun, runOn_bind_of_ok _ _ (expect_of_kind (s := { s with pos := p }) hn),
    next_of_kind hin hn (by decide)]
  cases enumLiteral (input.tokenAt p).text <;> rfl

/-- Without a number after the optional minus, an enum value fails. -/
theorem enumValue_not_number (hin : input.EndsWithEof) {negative : Bool} {p : Nat}
    (hneg : (input.tokenAt s.pos).kind = .minus ↔ negative = true)
    (hp : p = if negative then s.pos + 1 else s.pos) (hn : (input.tokenAt p).kind ≠ .number) :
    ∃ e s', enumValue.runOn input s = (.error e, s') := by
  unfold enumValue
  cases negative with
  | false =>
    rw [if_neg Bool.false_ne_true] at hp
    subst hp
    rw [runOn_bind_of_ok _ _ (eat_of_ne (fun h => absurd (hneg.1 h) Bool.false_ne_true)),
      runOn_bind_of_error _ _ (expect_of_ne hn)]
    exact ⟨_, _, rfl⟩
  | true =>
    have hm := hneg.2 rfl
    rw [if_pos rfl] at hp
    subst hp
    rw [runOn_bind_of_ok _ _ (eat_of_kind hm), next_of_kind hin hm (by decide),
      runOn_bind_of_error _ _ (expect_of_ne (s := { s with pos := s.pos + 1 }) hn)]
    exact ⟨_, _, rfl⟩

/-- Where the number of an enum value stands: after the minus, if there is one. -/
theorem exists_numberPosition (input : ParseInput) (s : ParseState) :
    ∃ (negative : Bool) (p : Nat), ((input.tokenAt s.pos).kind = .minus ↔ negative = true) ∧
      p = if negative then s.pos + 1 else s.pos :=
  ⟨decide ((input.tokenAt s.pos).kind = .minus), _, by simp, rfl⟩

section Reads

variable (hin : input.EndsWithEof)
include hin

/-- A successful read of an enum value derives it. -/
theorem enumValue_sound {v : Int} {s' : ParseState} (h : enumValue.runOn input s = (.ok v, s')) :
    input.InitializerAt s.pos v s'.pos ∧ s' = { s with pos := s'.pos } := by
  obtain ⟨negative, p, hneg, hp⟩ := exists_numberPosition input s
  by_cases hn : (input.tokenAt p).kind = .number
  · rw [enumValue_at_number hin hneg hp hn] at h
    cases hl : enumLiteral (input.tokenAt p).text with
    | none =>
      rw [hl] at h
      cases h
    | some w =>
      rw [hl] at h
      obtain ⟨n, hlit, hle, rfl⟩ := enumLiteral_eq_some_iff.1 hl
      cases h
      cases negative with
      | false =>
        rw [if_neg Bool.false_ne_true] at hp
        subst hp
        exact ⟨.plain hn hlit hle, rfl⟩
      | true =>
        rw [if_pos rfl] at hp
        subst hp
        exact ⟨.negated (hneg.2 rfl) hn hlit hle, rfl⟩
  · obtain ⟨e, s₁, hrun⟩ := enumValue_not_number hin hneg hp hn
    rw [hrun] at h
    cases h

/-- A derived initializer is read exactly. -/
theorem enumValue_complete {i j : Nat} {v : Int} (h : input.InitializerAt i v j) (hs : s.pos = i) :
    enumValue.runOn input s = (.ok v, { s with pos := j }) := by
  subst hs
  cases h with
  | plain hn hlit hle =>
    have hneg : (input.tokenAt s.pos).kind = .minus ↔ false = true := by
      rw [hn]
      decide
    rw [enumValue_at_number hin (p := s.pos) hneg rfl hn,
      enumLiteral_eq_some_iff.2 ⟨_, hlit, hle, rfl⟩]
    rfl
  | negated hm hn hlit hle =>
    rw [enumValue_at_number hin (p := s.pos + 1) (iff_of_true hm rfl) rfl hn,
      enumLiteral_eq_some_iff.2 ⟨_, hlit, hle, rfl⟩]
    rfl

/-- An initializer whose number is no literal of at most `maxInt64` fails with an invalid-value
error naming that number. -/
theorem enumValue_invalid {i : Nat} {t : Token} (h : input.BadInitializerAt i t) (hs : s.pos = i) :
    ∃ s', enumValue.runOn input s =
      (.error ⟨.invalidEnumValue t.text, t.span, input.path⟩, s') := by
  subst hs
  obtain ⟨hpos, -, hbad⟩ := h
  have hnone : enumLiteral t.text = none := by
    refine Option.eq_none_iff_forall_ne_some.2 fun w hw => ?_
    obtain ⟨n, hlit, hle, -⟩ := enumLiteral_eq_some_iff.1 hw
    exact absurd (hbad n hlit) (not_lt.2 hle)
  rcases hpos with ⟨hn, rfl⟩ | ⟨hm, hn, rfl⟩
  · have hneg : (input.tokenAt s.pos).kind = .minus ↔ false = true := by
      rw [hn]
      decide
    rw [enumValue_at_number hin (p := s.pos) hneg rfl hn, hnone]
    exact ⟨_, rfl⟩
  · rw [enumValue_at_number hin (p := s.pos + 1) (iff_of_true hm rfl) rfl hn, hnone]
    exact ⟨_, rfl⟩

/-- After an enumerator's name, an `=` starts its initializer, and without one it takes `next`;
reading on with `k` from there derives the enumerator. -/
theorem enumerator_sound {β : Type} (hid : (input.tokenAt s.pos).kind = .identifier) (next : Int)
    (k : Int → Parser β) {r : β} {s' : ParseState}
    (h : (eat .equal >>= fun b => if b = true then enumValue >>= k else pure next >>= k).runOn input
      { s with pos := s.pos + 1 } = (.ok r, s')) :
    ∃ e s₁, input.EnumeratorAt s.pos e s₁.pos ∧ e.name = (input.tokenAt s.pos).text ∧
      s₁ = { s with pos := s₁.pos } ∧ (k (e.init.getD next)).runOn input s₁ = (.ok r, s') := by
  by_cases heq : (input.tokenAt (s.pos + 1)).kind = .equal
  · rw [runOn_bind_of_ok _ _ (eat_of_kind (s := { s with pos := s.pos + 1 }) heq), if_pos rfl,
      next_of_kind hin heq (by decide), runOn_bind] at h
    rcases hv : enumValue.runOn input { s with pos := s.pos + 1 + 1 } with ⟨_ | v, s₁⟩ <;>
      rw [hv] at h
    · cases h
    obtain ⟨hinit, hs₁⟩ := enumValue_sound hin hv
    exact ⟨⟨_, some v⟩, s₁, .explicit hid heq hinit, rfl, hs₁, h⟩
  · rw [runOn_bind_of_ok _ _ (eat_of_ne (s := { s with pos := s.pos + 1 }) heq),
      if_neg Bool.false_ne_true, runOn_bind_of_ok _ _ (runOn_pure _ _ _)] at h
    exact ⟨⟨_, none⟩, _, .implicit hid, rfl, rfl, h⟩

omit hin in
/-- At a `}`, the loop over enumerators stops at once, whatever its rounds. -/
theorem enumEntries_at_close (hk : (input.tokenAt s.pos).kind = .rightBrace) (n : Nat) (next : Int)
    (acc : Array EnumEntry) : (enumEntries n next acc).runOn input s = (.ok acc, s) := by
  cases n with
  | zero => rfl
  | succ n =>
    unfold enumEntries
    rw [runOn_bind_of_ok _ _ (check_of_kind hk), if_pos rfl]
    rfl

theorem enumEntries_sound (n : Nat) :
    ∀ (next : Int) (acc r : Array EnumEntry) (s s' : ParseState), input.lastIndex - s.pos < n →
      (enumEntries n next acc).runOn input s = (.ok r, s') →
      ∃ es, r = acc ++ (numberEnumerators next es).toArray ∧
        input.ItemsAt .rightBrace input.EnumeratorAt s.pos es s'.pos ∧
        s' = { s with pos := s'.pos } := by
  induction n with
  | zero => intro _ _ _ _ _ hn; omega
  | succ n ih =>
    intro next acc r s s' hn h
    unfold enumEntries at h
    by_cases hclose : (input.tokenAt s.pos).kind = .rightBrace
    · rw [runOn_bind_of_ok _ _ (check_of_kind hclose), if_pos rfl] at h
      cases h
      exact ⟨[], by simp [numberEnumerators], .close hclose, rfl⟩
    rw [runOn_bind_of_ok _ _ (check_of_ne hclose), if_neg Bool.false_ne_true] at h
    by_cases hid : (input.tokenAt s.pos).kind = .identifier
    · rw [runOn_bind_of_ok _ _ (check_of_kind hid), Bool.not_true, if_neg Bool.false_ne_true,
        runOn_bind_of_ok _ _ (runOn_advance _ _), next_of_kind hin hid (by decide)] at h
      obtain ⟨e, s₁, hentry, hname, hs₁, h⟩ := enumerator_sound hin hid next _ h
      have hlt₁ := hentry.lt
      rcases separator_eq_ok hin h with ⟨hcomma, h⟩ | ⟨hclose₁, h⟩
      · -- a comma: the rest is read from the token after it, with a round less
        have hlast := lt_lastIndex_of_kind hin hcomma (by decide)
        obtain ⟨es, rfl, hitems, hs'⟩ := ih _ _ r _ s' (by simp only; omega) h
        refine ⟨e :: es, by simp [numberEnumerators, hname], .comma hentry hcomma hitems, ?_⟩
        rw [hs', hs₁]
      · -- the `}` ends the loop in the next round
        rw [enumEntries_at_close hclose₁] at h
        cases h
        exact ⟨[e], by simp [numberEnumerators, hname], .last hentry hclose₁, hs₁⟩
    · rw [runOn_bind_of_ok _ _ (check_of_ne hid), Bool.not_false, if_pos rfl,
        runOn_bind_of_error _ _ (runOn_fail _ _ _)] at h
      cases h

/-- The body of an enum: a `{`, enumerators up to the `}` that the loop stops at, and the closing
`;`. A successful read derives the enumerators and numbers them from zero. -/
theorem enumBody_sound (mk : Array EnumEntry → EnumDecl) {d : EnumDecl} {s' : ParseState}
    (h : (expect .leftBrace >>= fun _ => rounds >>= fun n => enumEntries n 0 #[] >>= fun values =>
      expect .rightBrace >>= fun _ => expect .semicolon >>= fun _ => pure (mk values)).runOn input s =
        (.ok d, s')) :
    ∃ es c, (input.tokenAt s.pos).kind = .leftBrace ∧
      input.ItemsAt .rightBrace input.EnumeratorAt (s.pos + 1) es c ∧
      (input.tokenAt (c + 1)).kind = .semicolon ∧ s'.pos = c + 2 ∧
      d = mk (numberEnumerators 0 es).toArray := by
  obtain ⟨u, s₁, h₁, h⟩ := runOn_bind_eq_ok h
  obtain ⟨hbrace, -, rfl⟩ := expect_eq_ok h₁
  obtain ⟨n, s₂, h₂, h⟩ := runOn_bind_eq_ok h
  rw [runOn_rounds] at h₂
  cases h₂
  obtain ⟨values, s₃, h₃, h⟩ := runOn_bind_eq_ok h
  rw [next_of_kind hin hbrace (by decide)] at h₃
  have hlt : s.pos < input.lastIndex := lt_lastIndex_of_kind hin hbrace (by decide)
  -- the loop has a round for every token, and stops at the `}`
  obtain ⟨es, rfl, hitems, -⟩ := enumEntries_sound hin _ _ _ _ _ _
    (by simp only [ParseInput.lastIndex]; omega) h₃
  obtain ⟨u, s₄, h₄, h⟩ := runOn_bind_eq_ok h
  obtain ⟨hclose, -, rfl⟩ := expect_eq_ok h₄
  obtain ⟨u, s₅, h₅, h⟩ := runOn_bind_eq_ok h
  obtain ⟨hsemi, -, rfl⟩ := expect_eq_ok h₅
  rw [runOn_pure] at h
  cases h
  dsimp only at hitems hsemi ⊢
  rw [next_of_kind hin hclose (by decide)] at hsemi ⊢
  exact ⟨es, s₃.pos, hbrace, hitems, hsemi, by rw [next_of_kind hin hsemi (by decide)], by simp⟩

theorem enumDecl_sound {d : EnumDecl} {s' : ParseState} (h : enumDecl.runOn input s = (.ok d, s')) :
    ∃ o es c, input.EnumHeadAt s.pos o ∧ input.ItemsAt .rightBrace input.EnumeratorAt (o + 1) es c ∧
      (input.tokenAt (c + 1)).kind = .semicolon ∧ s'.pos = c + 2 ∧
      d.values = numberEnumerators 0 es := by
  unfold enumDecl at h
  obtain ⟨marker, s₁, h₁, h⟩ := runOn_bind_eq_ok h
  obtain ⟨hmarker, -, rfl⟩ := expect_eq_ok h₁
  obtain ⟨l, s₂, h₂, h⟩ := runOn_bind_eq_ok h
  obtain ⟨hl, hs₂⟩ := decoratorList_sound hin h₂
  generalize s₂.pos = a at hl hs₂
  subst hs₂
  obtain ⟨x, s₃, h₃, h⟩ := runOn_bind_eq_ok h
  have hsemi := eat_eq_ok h₃
  obtain ⟨y, s₄, h₄, h⟩ := runOn_bind_eq_ok h
  obtain ⟨henum, -, rfl⟩ := expect_eq_ok h₄
  clear h₁ h₂ h₃ h₄
  obtain ⟨sc, c, hc, h⟩ := scoped_sound hin _ h
  obtain ⟨start, s₆, h₆, h⟩ := runOn_bind_eq_ok h
  rw [runOn_position] at h₆
  cases h₆
  obtain ⟨inp, s₇, h₇, h⟩ := runOn_bind_eq_ok h
  rw [runOn_read] at h₇
  cases h₇
  obtain ⟨u, s₈, h₈, h⟩ := runOn_bind_eq_ok h
  rw [runOn_seek] at h₈
  cases h₈
  dsimp -zeta only at h
  -- the names run from `c` to the first token that is no name
  have hb : input.next s₃.pos = s₃.pos + 1 := next_of_kind hin henum (by decide)
  have hbl : s₃.pos < input.lastIndex := lt_lastIndex_of_kind hin henum (by decide)
  dsimp only at hc
  rw [hb] at hc
  have hcl : c ≤ input.lastIndex := by
    rcases hc with ⟨hk, rfl⟩ | ⟨-, -, rfl⟩
    · have : s₃.pos + 1 < input.lastIndex := by
        rcases hk with hk | hk <;> exact lt_lastIndex_of_kind hin hk (by decide)
      omega
    · omega
  obtain ⟨e, hce, hel, hrun, hstop⟩ := exists_namesEnd hin c hcl
  rw [length_takeWhile_names hce (Nat.lt_of_le_of_lt hel input.lastIndex_lt) hrun hstop,
    show min (c + (e - c)) input.lastIndex = e by omega] at h
  rcases Nat.eq_or_lt_of_le hce with rfl | hce
  · -- no name: the enum fails
    rw [(List.getLast?_eq_none_iff).2 (List.length_eq_zero_iff.1
      (length_takeWhile_names (Nat.le_refl _) (Nat.lt_of_le_of_lt hel input.lastIndex_lt) hrun hstop
        |>.trans (Nat.sub_self _)))] at h
    obtain ⟨_, _, h, -⟩ := runOn_bind_eq_ok h
    cases h
  obtain ⟨t, ht⟩ := exists_lastName hce (Nat.lt_of_le_of_lt hel input.lastIndex_lt) hrun hstop
  rw [ht] at h
  dsimp -zeta only at h
  obtain ⟨name, s₉, h₉, h⟩ := runOn_bind_eq_ok h
  rw [runOn_pure] at h₉
  cases h₉
  obtain ⟨s₁₀, hs₁₀, h⟩ := warn_sound _ _ _ _ h
  obtain ⟨o, ho, h⟩ := underlying_sound hin _ h
  simp only [hs₁₀] at ho
  obtain ⟨es, c', hbrace, hitems, hsemi', hpos, rfl⟩ := enumBody_sound hin _ h
  dsimp only at hl hsemi hbrace hitems ⊢
  rw [next_of_kind hin hmarker (by decide)] at hl
  have hb' : s₃.pos = a ∨ (input.tokenAt a).kind = .semicolon ∧ s₃.pos = a + 1 := by
    rcases hsemi with ⟨hk, -, rfl⟩ | ⟨-, -, rfl⟩
    · exact .inr ⟨hk, next_of_kind hin hk (by decide)⟩
    · exact .inl rfl
  have hc' : c = s₃.pos + 1 ∨ ((input.tokenAt (s₃.pos + 1)).kind = .kwClass ∨
      (input.tokenAt (s₃.pos + 1)).kind = .kwStruct) ∧ c = s₃.pos + 2 := by
    rcases hc with ⟨hk, rfl⟩ | ⟨-, -, rfl⟩
    · exact .inr ⟨hk, rfl⟩
    · exact .inl rfl
  have hbody : (input.tokenAt e).kind = .leftBrace ∧ o = e ∨
      (input.tokenAt e).kind = .colon ∧ e < o ∧ (input.tokenAt o).kind = .leftBrace ∧
        ∀ m, e < m → m < o → (input.tokenAt m).kind ≠ .leftBrace ∧
          (input.tokenAt m).kind ≠ .semicolon ∧ (input.tokenAt m).kind ≠ .eof := by
    rcases ho with ⟨-, rfl⟩ | hcolon
    · exact .inl ⟨hbrace, rfl⟩
    · exact .inr hcolon
  exact ⟨o, es, c', .mk hmarker hl hb' henum hc' hce hrun hbody, hitems, hsemi', hpos, by simp⟩

/-- After an enumerator's name, the rest of a derived enumerator is read exactly when a comma or
`}` follows it, and the reading goes on with its value. -/
theorem enumerator_complete {β : Type} {i j : Nat} {e : Enumerator} (h : input.EnumeratorAt i e j)
    (hj : input.Closes .rightBrace j) (hs : s.pos = i) (next : Int) (k : Int → Parser β) :
    (eat .equal >>= fun b => if b = true then enumValue >>= k else pure next >>= k).runOn input
      { s with pos := s.pos + 1 } = (k (e.init.getD next)).runOn input { s with pos := j } := by
  subst hs
  cases h with
  | implicit hid =>
    have heq : (input.tokenAt (s.pos + 1)).kind ≠ .equal := by
      rcases hj with hj | hj <;> rw [hj] <;> decide
    rw [runOn_bind_of_ok _ _ (eat_of_ne (s := { s with pos := s.pos + 1 }) heq),
      if_neg Bool.false_ne_true, runOn_bind_of_ok _ _ (runOn_pure _ _ _)]
    rfl
  | explicit hid heq hinit =>
    rw [runOn_bind_of_ok _ _ (eat_of_kind (s := { s with pos := s.pos + 1 }) heq), if_pos rfl,
      next_of_kind hin heq (by decide),
      runOn_bind_of_ok _ _ (enumValue_complete hin (s := { s with pos := s.pos + 1 + 1 }) hinit rfl)]
    rfl

/-- Enumerators each followed by a comma, then one whose initializer is no literal of at most
`maxInt64`: the loop fails with an invalid-value error naming that initializer's number. -/
theorem enumEntries_invalid {i k : Nat} {es : List Enumerator} {t : Token}
    (h : input.SeparatedAt input.EnumeratorAt i es k) (hid : (input.tokenAt k).kind = .identifier)
    (heq : (input.tokenAt (k + 1)).kind = .equal) (hbad : input.BadInitializerAt (k + 2) t) :
    ∀ (n : Nat) (next : Int) (acc : Array EnumEntry) (s : ParseState), s.pos = i → k - i < n →
      ∃ s', (enumEntries n next acc).runOn input s =
        (.error ⟨.invalidEnumValue t.text, t.span, input.path⟩, s') := by
  induction h with
  | nil i =>
    intro n next acc s hs hn
    subst hs
    obtain ⟨n, rfl⟩ : ∃ m, n = m + 1 := ⟨n - 1, by omega⟩
    obtain ⟨s', hv⟩ := enumValue_invalid hin (s := { s with pos := s.pos + 1 + 1 }) hbad rfl
    unfold enumEntries
    rw [runOn_bind_of_ok _ _ (check_of_ne (by rw [hid]; decide)), if_neg Bool.false_ne_true,
      runOn_bind_of_ok _ _ (check_of_kind hid), Bool.not_true, if_neg Bool.false_ne_true,
      runOn_bind_of_ok _ _ (runOn_advance _ _), next_of_kind hin hid (by decide)]
    dsimp only
    rw [runOn_bind_of_ok _ _ (eat_of_kind (s := { s with pos := s.pos + 1 }) heq), if_pos rfl,
      next_of_kind hin heq (by decide), runOn_bind_of_error _ _ hv]
    exact ⟨_, rfl⟩
  | @cons i k' j x xs hx hcomma hrest ih =>
    intro n next acc s hs hn
    subst hs
    have hlt := hx.lt
    have hle := hrest.le fun _ _ _ hy => hy.lt
    obtain ⟨n, rfl⟩ : ∃ m, n = m + 1 := ⟨n - 1, by omega⟩
    unfold enumEntries
    rw [runOn_bind_of_ok _ _ (check_of_ne hx.not_close), if_neg Bool.false_ne_true,
      runOn_bind_of_ok _ _ (check_of_kind hx.identifier), Bool.not_true, if_neg Bool.false_ne_true,
      runOn_bind_of_ok _ _ (runOn_advance _ _), next_of_kind hin hx.identifier (by decide)]
    dsimp only
    rw [enumerator_complete hin hx (.inl hcomma) rfl,
      runOn_bind_of_ok _ _ (eat_of_kind (s := { s with pos := k' }) hcomma), Bool.not_true,
      if_neg Bool.false_ne_true, next_of_kind hin hcomma (by decide)]
    exact ih hid heq hbad _ _ _ _ rfl (by omega)

theorem enumDecl_head_complete {o : Nat} (h : input.EnumHeadAt s.pos o) :
    ∃ (s₁ : ParseState) (f : Array EnumEntry → Parser EnumDecl), s₁.pos = o + 1 ∧
      enumDecl.runOn input s = (enumEntries (input.tokens.size + 1) 0 #[] >>= f).runOn input s₁ := by
  cases h with
  | @mk l a b c e _ hmarker hdecs hsemi henum hscoped hce hnames hbody =>
  unfold enumDecl
  rw [runOn_bind_of_ok _ _ (expect_of_kind hmarker), next_of_kind hin hmarker (by decide),
    runOn_bind_of_ok _ _ (decoratorList_complete hin hdecs rfl)]
  -- an optional `;`, then `enum`
  obtain ⟨x, hx⟩ : ∃ x, (eat .semicolon).runOn input { s with pos := a } =
      (.ok x, { s with pos := b }) := by
    rcases hsemi with rfl | ⟨hk, rfl⟩
    · exact ⟨false, eat_of_ne (by rw [henum]; decide)⟩
    · exact ⟨true, by rw [eat_of_kind hk, next_of_kind hin hk (by decide)]⟩
  rw [runOn_bind_of_ok _ _ hx, runOn_bind_of_ok _ _ (expect_of_kind henum),
    next_of_kind hin henum (by decide)]
  have hcid : (input.tokenAt c).kind = .identifier := hnames c (Nat.le_refl c) hce
  rw [scoped_complete hin _ (hscoped.imp_right fun h => ⟨h.1, h.2⟩) hcid,
    runOn_bind_of_ok _ _ (runOn_position _ _), runOn_bind_of_ok _ _ (runOn_read _ _)]
  dsimp only
  -- the names, up to the `{` or the `:` after them
  have hel : e < input.lastIndex := by
    rcases hbody with ⟨hk, -⟩ | ⟨hk, -⟩ <;> exact lt_lastIndex_of_kind hin hk (by decide)
  have he : e < input.tokens.size := Nat.lt_of_lt_of_le hel (Nat.le_of_lt input.lastIndex_lt)
  have hstop : (input.tokenAt e).kind ≠ .identifier := by
    rcases hbody with ⟨hk, -⟩ | ⟨hk, -⟩ <;> rw [hk] <;> decide
  have hlen := length_takeWhile_names hce.le he hnames hstop
  obtain ⟨t, ht⟩ := exists_lastName hce he hnames hstop
  rw [hlen, runOn_bind_of_ok _ _ (runOn_seek _ _ _), show min (c + (e - c)) input.lastIndex = e by omega,
    ht]
  dsimp only
  rw [runOn_bind_of_ok _ _ (runOn_pure _ _ _), warn_complete]
  dsimp only
  -- past the underlying type, the `{` and the rounds of the loop over the enumerators
  have hbrace : (input.tokenAt o).kind = .leftBrace := by
    rcases hbody with ⟨hk, rfl⟩ | ⟨-, -, hk, -⟩ <;> exact hk
  refine ⟨?_, ?_, ?pos, (underlying_complete hin _ hbody).trans ?run⟩
  case run =>
    rw [runOn_bind_of_ok _ _ (expect_of_kind hbrace), next_of_kind hin hbrace (by decide),
      runOn_bind_of_ok _ _ (runOn_rounds _ _)]
  case pos => rfl

end Reads

/-- Enum values follow their initializers. On every token stream that ends with the end of input:
when a reflected enum is read, its head runs up to a `{`, its enumerators are derived from the
tokens after it up to the `}` before the closing `;`, and the `k`-th value is the `k`-th
enumerator's initializer when it has one (a decimal or `0x` literal, negated after a minus), and
otherwise zero for the first and the successor of the one before, stopping at `maxInt64`; every
value lies between `-maxInt64` and `maxInt64`. And when the enumerators after the head are
followed by one whose initializer's number is no literal of at most `maxInt64`, the read fails
with an invalid-value error naming that number. -/
theorem enumDecl_numbers_values (hin : input.EndsWithEof) (s : ParseState) :
    (∀ d s', enumDecl.runOn input s = (.ok d, s') →
      ∃ o es c, input.EnumHeadAt s.pos o ∧
        input.ItemsAt .rightBrace input.EnumeratorAt (o + 1) es c ∧
        (input.tokenAt (c + 1)).kind = .semicolon ∧ s'.pos = c + 2 ∧
        d.values.map (·.name) = es.map (·.name) ∧
        (∀ k (hk : k < d.values.length), d.values[k].value = (es[k]?.bind (·.init)).getD
          (if k = 0 then 0 else nextEnumValue d.values[k - 1].value)) ∧
        ∀ e ∈ d.values, -maxInt64 ≤ e.value ∧ e.value ≤ maxInt64) ∧
    (∀ o es k t, input.EnumHeadAt s.pos o → input.SeparatedAt input.EnumeratorAt (o + 1) es k →
      (input.tokenAt k).kind = .identifier → (input.tokenAt (k + 1)).kind = .equal →
      input.BadInitializerAt (k + 2) t →
      ∃ s', enumDecl.runOn input s = (.error ⟨.invalidEnumValue t.text, t.span, input.path⟩, s')) := by
  constructor
  · intro d s' h
    obtain ⟨o, es, c, hhead, hitems, hsemi, hpos, hvalues⟩ := enumDecl_sound hin h
    have hwritten : ∀ e ∈ es, ∀ v, e.init = some v → -maxInt64 ≤ v ∧ v ≤ maxInt64 := by
      intro e he v hv
      obtain ⟨a, b, hentry⟩ := hitems.derives e he
      cases hentry with
      | implicit => cases hv
      | explicit _ _ hinit => cases hv; exact hinit.bounded
    cases d
    dsimp only at hvalues ⊢
    subst hvalues
    refine ⟨o, es, c, hhead, hitems, hsemi, hpos, map_name_numberEnumerators 0 es,
      fun k hk => getElem_numberEnumerators_value 0 es k hk, ?_⟩
    exact numberEnumerators_bounded (by unfold maxInt64; omega) hwritten
  · intro o es k t hhead hsep hid heq hbad
    obtain ⟨s₁, f, hs₁, hrun⟩ := enumDecl_head_complete hin hhead
    have hk := lt_lastIndex_of_kind hin hid (by decide)
    obtain ⟨s', hentries⟩ := enumEntries_invalid hin hsep hid heq hbad (input.tokens.size + 1) 0 #[]
      s₁ hs₁ (by simp only [ParseInput.lastIndex] at hk; omega)
    exact ⟨s', by rw [hrun, runOn_bind_of_error _ _ hentries]⟩


/-- An enum at the limits: the largest value, written in hexadecimal, an entry after it that stays
there, and the most negative value that can be written. -/
theorem enumDecl_numbers_values_limits :
    (ParseInput.ofTokens (tokenize
        "GENUM() enum class E \x7b A = 0x7FFFFFFFFFFFFFFF, B, C = -9223372036854775807 \x7d;").tokens
        "t.h").EndsWithEof ∧
    ((∀ d s', enumDecl.runOn (ParseInput.ofTokens (tokenize
        "GENUM() enum class E \x7b A = 0x7FFFFFFFFFFFFFFF, B, C = -9223372036854775807 \x7d;").tokens
        "t.h") ⟨0, .empty⟩ = (.ok d, s') →
      ∃ o es c, (ParseInput.ofTokens (tokenize
          "GENUM() enum class E \x7b A = 0x7FFFFFFFFFFFFFFF, B, C = -9223372036854775807 \x7d;").tokens
          "t.h").EnumHeadAt 0 o ∧
        (ParseInput.ofTokens (tokenize
          "GENUM() enum class E \x7b A = 0x7FFFFFFFFFFFFFFF, B, C = -9223372036854775807 \x7d;").tokens
          "t.h").ItemsAt .rightBrace (ParseInput.ofTokens (tokenize
          "GENUM() enum class E \x7b A = 0x7FFFFFFFFFFFFFFF, B, C = -9223372036854775807 \x7d;").tokens
          "t.h").EnumeratorAt (o + 1) es c ∧
        ((ParseInput.ofTokens (tokenize
          "GENUM() enum class E \x7b A = 0x7FFFFFFFFFFFFFFF, B, C = -9223372036854775807 \x7d;").tokens
          "t.h").tokenAt (c + 1)).kind = .semicolon ∧ s'.pos = c + 2 ∧
        d.values.map (·.name) = es.map (·.name) ∧
        (∀ k (hk : k < d.values.length), d.values[k].value = (es[k]?.bind (·.init)).getD
          (if k = 0 then 0 else nextEnumValue d.values[k - 1].value)) ∧
        ∀ e ∈ d.values, -maxInt64 ≤ e.value ∧ e.value ≤ maxInt64) ∧
    (∀ o es k t, (ParseInput.ofTokens (tokenize
          "GENUM() enum class E \x7b A = 0x7FFFFFFFFFFFFFFF, B, C = -9223372036854775807 \x7d;").tokens
          "t.h").EnumHeadAt 0 o →
      (ParseInput.ofTokens (tokenize
          "GENUM() enum class E \x7b A = 0x7FFFFFFFFFFFFFFF, B, C = -9223372036854775807 \x7d;").tokens
          "t.h").SeparatedAt (ParseInput.ofTokens (tokenize
          "GENUM() enum class E \x7b A = 0x7FFFFFFFFFFFFFFF, B, C = -9223372036854775807 \x7d;").tokens
          "t.h").EnumeratorAt (o + 1) es k →
      ((ParseInput.ofTokens (tokenize
          "GENUM() enum class E \x7b A = 0x7FFFFFFFFFFFFFFF, B, C = -9223372036854775807 \x7d;").tokens
          "t.h").tokenAt k).kind = .identifier →
      ((ParseInput.ofTokens (tokenize
          "GENUM() enum class E \x7b A = 0x7FFFFFFFFFFFFFFF, B, C = -9223372036854775807 \x7d;").tokens
          "t.h").tokenAt (k + 1)).kind = .equal →
      (ParseInput.ofTokens (tokenize
          "GENUM() enum class E \x7b A = 0x7FFFFFFFFFFFFFFF, B, C = -9223372036854775807 \x7d;").tokens
          "t.h").BadInitializerAt (k + 2) t →
      ∃ s', enumDecl.runOn (ParseInput.ofTokens (tokenize
          "GENUM() enum class E \x7b A = 0x7FFFFFFFFFFFFFFF, B, C = -9223372036854775807 \x7d;").tokens
          "t.h") ⟨0, .empty⟩ = (.error ⟨.invalidEnumValue t.text, t.span, (ParseInput.ofTokens
            (tokenize "GENUM() enum class E \x7b A = 0x7FFFFFFFFFFFFFFF, B, C = -9223372036854775807 \x7d;").tokens
            "t.h").path⟩, s'))) :=
  ⟨ofTokens_endsWithEof _ _, enumDecl_numbers_values (ofTokens_endsWithEof _ _) ⟨0, .empty⟩⟩

end Parser

end TypeReflection

