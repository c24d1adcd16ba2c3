import TypeReflection.Proofs.Token.Scan
import TypeReflection.Parse.File
import TypeReflection.Emit.Header

/-!
# Decorator values written back as C++ literals

A quoted decorator value such as `Tooltip("Max speed")` is kept as the text between its quotes,
and the generated header writes that text back as a C++ string literal (`Quote.literal`). This
module says what the written literal means to a C++ compiler.

`CppLiteral.denote` reads the body of an ordinary string literal by the C++ rules: simple escapes
(`\n`, `\"`, `\\`, ...), octal escapes of one to three digits, hexadecimal escapes of any length,
and universal character names; any other character stands for its UTF-8 code units, and a quote
or a line break cannot stand in the body. The main facts:
- `denote_encode`: the literal written for a text denotes exactly that text, as long as the text
  has no carriage return (the one line break that is written raw);
- `length_lt_of_backslash`: an escape always stands for fewer code units than it is spelled with,
  so a body with a backslash never denotes its own spelling.

Since the parser keeps a quoted value as it is spelled, escapes included, the literal written for
it denotes the spelling (`decoratorLiteral_denotes_spelling`), which is what the original literal
denotes only when it has no escape; `decoratorLiteral_loses_escapes` is such a value.
-/

set_option autoImplicit false

namespace TypeReflection

/-! ## Reading a C++ string literal -/

namespace CppLiteral

/-- The code units of characters in UTF-8, the encoding of an ordinary string literal. -/
def units (cs : List Char) : List UInt8 := cs.flatMap String.utf8EncodeChar

/-- The simple escapes `\c`, each with the code unit it stands for. -/
def simpleEscapes : List (Char × UInt8) :=
  [(Char.ofNat 0x27, 0x27), ('"', 0x22), ('?', 0x3F), ('\\', 0x5C), ('a', 0x07), ('b', 0x08),
    ('f', 0x0C), ('n', 0x0A), ('r', 0x0D), ('t', 0x09), ('v', 0x0B)]

/-- The code unit of the simple escape `\c`, if `c` makes one. -/
def simpleEscape (c : Char) : Option UInt8 := simpleEscapes.lookup c

/-- The code unit of an octal or hexadecimal escape worth `v`: it must fit in one byte. -/
def numericUnit (v : Nat) : Option (List UInt8) :=
  if v < 256 then some [v.toUInt8] else none

/-- The code units of the universal character name worth `v`: it must name a character. -/
def universalUnits (v : Nat) : Option (List UInt8) :=
  if v.isValidChar then some (String.utf8EncodeChar (Char.ofNat v)) else none

/-- Where a reader of a literal's body stands. -/
inductive Reader where
  /-- Between characters. -/
  | plain
  /-- Right after a backslash. -/
  | escape
  /-- Inside an octal escape, `count` digits read so far, worth `value`. -/
  | octal (count value : Nat)
  /-- Inside a hexadecimal escape, `count` digits read so far, worth `value`. -/
  | hex (count value : Nat)
  /-- Inside a universal character name, `left` digits still to read. -/
  | universal (left value : Nat)
  deriving DecidableEq, Repr

/-- Reads a character between escapes: a backslash starts an escape, a quote or a line break
cannot stand in a literal, and any other character stands for its own code units. -/
def readPlain (c : Char) : Option (Reader × List UInt8) :=
  if c = '\\' then some (.escape, [])
  else if c = '"' ∨ c = '\n' ∨ c = '\r' then none
  else some (.plain, String.utf8EncodeChar c)

/-- Ends a numeric escape worth `v` at the character `c`, which is then read afresh. -/
def flush (v : Nat) (c : Char) : Option (Reader × List UInt8) :=
  (numericUnit v).bind fun u => (readPlain c).map fun (r, us) => (r, u ++ us)

/-- Reads one more character, giving where the reader stands after it and the code units it
completes. -/
def Reader.next : Reader → Char → Option (Reader × List UInt8)
  | .plain, c => readPlain c
  | .escape, c =>
    match simpleEscape c, digitValue 8 c with
    | some u, _ => some (.plain, [u])
    | none, some d => some (.octal 1 d, [])
    | none, none =>
      if c = 'x' then some (.hex 0 0, [])
      else if c = 'u' then some (.universal 4 0, [])
      else if c = 'U' then some (.universal 8 0, [])
      else none
  | .octal n v, c =>
    match digitValue 8 c with
    | some d => if n < 3 then some (.octal (n + 1) (8 * v + d), []) else flush v c
    | none => flush v c
  | .hex n v, c =>
    match digitValue 16 c with
    | some d => some (.hex (n + 1) (16 * v + d), [])
    | none => if n = 0 then none else flush v c
  | .universal (k + 2) v, c =>
    (digitValue 16 c).map fun d => (.universal (k + 1) (16 * v + d), [])
  | .universal _ v, c =>
    (digitValue 16 c).bind fun d => (universalUnits (16 * v + d)).map (.plain, ·)

/-- The code units still owed when the body ends: a pending numeric escape is complete, any
other unfinished escape is an error. -/
def Reader.finish : Reader → Option (List UInt8)
  | .plain => some []
  | .octal _ v => numericUnit v
  | .hex (_ + 1) v => numericUnit v
  | _ => none

/-- The code units that the characters `cs` stand for, read from `r`. -/
def denoteFrom (r : Reader) : List Char → Option (List UInt8)
  | [] => r.finish
  | c :: cs => (r.next c).bind fun (r', us) => (denoteFrom r' cs).map (us ++ ·)

/-- The code units that the body of a string literal stands for; none when the body breaks a
rule of the language. -/
def denote (cs : List Char) : Option (List UInt8) := denoteFrom .plain cs

/-- What a whole string literal `"..."` stands for. -/
def denoteLiteral (s : String) : Option (List UInt8) :=
  match s.toList with
  | '"' :: rest => if rest.getLast? = some '"' then denote rest.dropLast else none
  | _ => none

example : denote ['a', '\\', '1', '2', '3', '4'] = some [0x61, 0x53, 0x34] := by decide

@[simp] theorem units_nil : units [] = [] := rfl

@[simp] theorem units_cons (c : Char) (cs : List Char) :
    units (c :: cs) = String.utf8EncodeChar c ++ units cs := rfl

@[simp] theorem denoteFrom_nil (r : Reader) : denoteFrom r [] = r.finish := rfl

@[simp] theorem Reader.next_plain (c : Char) : Reader.plain.next c = readPlain c := rfl

theorem denoteFrom_cons (r : Reader) (c : Char) (cs : List Char) :
    denoteFrom r (c :: cs) = (r.next c).bind fun (r', us) => (denoteFrom r' cs).map (us ++ ·) :=
  rfl

/-- A body whose whole text is read by its first character's step and the rest. -/
theorem denoteFrom_cons_of_next {r r' : Reader} {c : Char} {us : List UInt8} (cs : List Char)
    (h : r.next c = some (r', us)) :
    denoteFrom r (c :: cs) = (denoteFrom r' cs).map (us ++ ·) := by
  rw [denoteFrom_cons, h]
  rfl

theorem denoteLiteral_quoted (body : List Char) :
    denoteLiteral (String.ofList ('"' :: body ++ ['"'])) = denote body := by
  simp [denoteLiteral]

/-! ## The literal written for a text denotes the text -/

theorem readPlain_of_ne {c : Char} (h1 : c ≠ '\\') (h2 : c ≠ '"') (h3 : c ≠ '\n') (h4 : c ≠ '\r') :
    readPlain c = some (.plain, String.utf8EncodeChar c) := by
  simp [readPlain, h1, h2, h3, h4]

/-- An escape written by `Quote.escapeChar`: a backslash, then the character of a simple
escape standing for `c`. -/
theorem denote_backslash_simple {c e : Char} (he : simpleEscape e = some c.toUInt8)
    (hc : String.utf8EncodeChar c = [c.toUInt8]) (rest : List Char) :
    denote ('\\' :: e :: rest) = (denote rest).map (String.utf8EncodeChar c ++ ·) := by
  have hesc : Reader.escape.next e = some (.plain, [c.toUInt8]) := by
    simp [Reader.next, he]
  rw [denote, denoteFrom_cons_of_next _ (by decide : Reader.plain.next '\\' = some (.escape, [])),
    denoteFrom_cons_of_next _ hesc, Option.map_map, hc]
  rfl

/-- Each character of a quoted text is read back as its own code units; only a carriage
return, written raw, breaks the literal. -/
theorem denote_escapeChar {c : Char} (hcr : c ≠ '\r') (rest : List Char) :
    denote (Quote.escapeChar c ++ rest) = (denote rest).map (String.utf8EncodeChar c ++ ·) := by
  by_cases h1 : c = '"'
  · subst c
    exact denote_backslash_simple (by decide) (by decide) rest
  by_cases h2 : c = '\\'
  · subst c
    exact denote_backslash_simple (by decide) (by decide) rest
  by_cases h3 : c = '\n'
  · subst c
    exact denote_backslash_simple (by decide) (by decide) rest
  by_cases h4 : c = '\t'
  · subst c
    exact denote_backslash_simple (by decide) (by decide) rest
  have hplain : Quote.escapeChar c = [c] := by
    unfold Quote.escapeChar
    split <;> simp_all
  have hstep : Reader.plain.next c = some (.plain, String.utf8EncodeChar c) := by
    rw [Reader.next_plain, readPlain_of_ne h2 h1 h3 hcr]
  rw [hplain, List.singleton_append, denote, denoteFrom_cons_of_next _ hstep]
  rfl

/-- The body written for a text without carriage returns denotes exactly that text. -/
theorem denote_encode {cs : List Char} (hcr : '\r' ∉ cs) :
    denote (Quote.encode cs) = some (units cs) := by
  induction cs with
  | nil => rfl
  | cons c cs ih =>
    simp only [List.mem_cons, not_or] at hcr
    rw [Quote.encode, List.flatMap_cons, ← Quote.encode, denote_escapeChar (Ne.symm hcr.1),
      ih hcr.2]
    rfl

theorem literal_toList (s : String) :
    (Quote.literal s).toList = '"' :: Quote.encode s.toList ++ ['"'] := by
  simp [Quote.literal]

/-- The literal written for a text without carriage returns denotes exactly that text. -/
theorem denoteLiteral_literal {s : String} (hcr : '\r' ∉ s.toList) :
    denoteLiteral (Quote.literal s) = some (units s.toList) := by
  rw [← String.ofList_toList (s := Quote.literal s), literal_toList, denoteLiteral_quoted,
    denote_encode hcr]

/-! ## An escape is spelled longer than what it stands for -/

/-- How many code units the reader may still write beyond the characters it reads: a pending
numeric escape owes one, and a universal character name owes up to four for the digits it still
needs. -/
def Reader.credit : Reader → Int
  | .octal _ _ => 1
  | .hex (_ + 1) _ => 1
  | .universal k _ => 4 - k
  | _ => 0

theorem readPlain_credit {c : Char} {r : Reader} {us : List UInt8}
    (h : readPlain c = some (r, us)) : (us.length : Int) + r.credit ≤ c.utf8Size := by
  unfold readPlain at h
  split at h
  · obtain ⟨rfl, rfl⟩ := Prod.mk.inj (Option.some.inj h)
    simp [Reader.credit]
  split at h
  · simp at h
  · obtain ⟨rfl, rfl⟩ := Prod.mk.inj (Option.some.inj h)
    simp [Reader.credit]

theorem flush_eq_some {v : Nat} {c : Char} {r : Reader} {us : List UInt8}
    (h : flush v c = some (r, us)) :
    ∃ us', readPlain c = some (r, us') ∧ us.length = us'.length + 1 := by
  unfold flush numericUnit at h
  split at h
  · simp only [Option.bind_some] at h
    obtain ⟨⟨r', us'⟩, hp, heq⟩ := Option.map_eq_some_iff.1 h
    obtain ⟨rfl, rfl⟩ := Prod.mk.inj heq
    exact ⟨us', hp, by simp⟩
  · simp at h

/-- Ending a numeric escape writes its one code unit, which its credit had already allowed. -/
theorem flush_credit {v : Nat} {c : Char} {r : Reader} {us : List UInt8}
    (h : flush v c = some (r, us)) : (us.length : Int) + r.credit ≤ c.utf8Size + 1 := by
  obtain ⟨us', hp, hlen⟩ := flush_eq_some h
  have := readPlain_credit hp
  rw [hlen]
  push_cast
  omega

theorem length_of_universalUnits {v : Nat} {us : List UInt8} (h : universalUnits v = some us) :
    us.length ≤ 4 := by
  unfold universalUnits at h
  split at h
  · rw [← Option.some.inj h, String.length_utf8EncodeChar]
    exact Char.utf8Size_le_four _
  · simp at h

/-- One character moves the reader on without writing more than it allows. -/
theorem next_credit {r r' : Reader} {c : Char} {us : List UInt8} (h : r.next c = some (r', us)) :
    (us.length : Int) + r'.credit ≤ c.utf8Size + r.credit := by
  have hpos := c.utf8Size_pos
  cases r with
  | plain => simpa [Reader.credit] using readPlain_credit h
  | escape =>
    -- a simple escape writes one unit, any other escape starts owing
    simp only [Reader.next] at h
    split at h
    · obtain ⟨rfl, rfl⟩ := Prod.mk.inj (Option.some.inj h)
      simp only [Reader.credit, List.length_singleton]
      omega
    · obtain ⟨rfl, rfl⟩ := Prod.mk.inj (Option.some.inj h)
      simp only [Reader.credit, List.length_nil]
      omega
    · split at h
      · obtain ⟨rfl, rfl⟩ := Prod.mk.inj (Option.some.inj h)
        simp only [Reader.credit, List.length_nil]
        omega
      split at h
      · obtain ⟨rfl, rfl⟩ := Prod.mk.inj (Option.some.inj h)
        simp only [Reader.credit, List.length_nil]
        omega
      split at h
      · obtain ⟨rfl, rfl⟩ := Prod.mk.inj (Option.some.inj h)
        simp only [Reader.credit, List.length_nil]
        omega
      · simp at h
  | octal n v =>
    simp only [Reader.next] at h
    split at h
    · split at h
      · obtain ⟨rfl, rfl⟩ := Prod.mk.inj (Option.some.inj h)
        simp only [Reader.credit, List.length_nil]
        omega
      · simpa only [Reader.credit] using flush_credit h
    · simpa only [Reader.credit] using flush_credit h
  | hex n v =>
    simp only [Reader.next] at h
    split at h
    · obtain ⟨rfl, rfl⟩ := Prod.mk.inj (Option.some.inj h)
      cases n <;> simp only [Reader.credit, List.length_nil] <;> omega
    · split at h
      · simp at h
      · obtain ⟨n, rfl⟩ := Nat.exists_eq_succ_of_ne_zero ‹n ≠ 0›
        simpa only [Reader.credit] using flush_credit h
  | universal k v =>
    match k with
    | k + 2 =>
      simp only [Reader.next] at h
      obtain ⟨d, -, heq⟩ := Option.map_eq_some_iff.1 h
      obtain ⟨rfl, rfl⟩ := Prod.mk.inj heq
      simp only [Reader.credit, List.length_nil]
      omega
    | 0 | 1 =>
      -- the last digit writes the named character, at most four units
      simp only [Reader.next] at h
      obtain ⟨d, -, hu⟩ := Option.bind_eq_some_iff.1 h
      obtain ⟨us', hus, heq⟩ := Option.map_eq_some_iff.1 hu
      obtain ⟨rfl, rfl⟩ := Prod.mk.inj heq
      have := length_of_universalUnits hus
      simp only [Reader.credit]
      omega

theorem finish_credit {r : Reader} {us : List UInt8} (h : r.finish = some us) :
    (us.length : Int) ≤ r.credit := by
  cases r with
  | plain =>
    cases h
    simp [Reader.credit]
  | octal n v =>
    simp only [Reader.finish, numericUnit] at h
    split at h
    · cases h
      simp [Reader.credit]
    · simp at h
  | hex n v =>
    cases n with
    | zero => simp [Reader.finish] at h
    | succ n =>
      simp only [Reader.finish, numericUnit] at h
      split at h
      · cases h
        simp [Reader.credit]
      · simp at h
  | escape | universal => simp [Reader.finish] at h

/-- What a reader writes is at most what the characters it reads are spelled with, plus its
credit. -/
theorem length_denoteFrom_le {r : Reader} {cs : List Char} {out : List UInt8}
    (h : denoteFrom r cs = some out) : (out.length : Int) ≤ (units cs).length + r.credit := by
  induction cs generalizing r out with
  | nil => simpa using finish_credit h
  | cons c cs ih =>
    rw [denoteFrom_cons] at h
    obtain ⟨⟨r', us⟩, hnext, hrest⟩ := Option.bind_eq_some_iff.1 h
    obtain ⟨out', hout', rfl⟩ := Option.map_eq_some_iff.1 hrest
    have hstep := next_credit hnext
    have htail := ih hout'
    simp only [List.length_append, units_cons, String.length_utf8EncodeChar] at htail ⊢
    omega

/-- A body with a backslash stands for fewer code units than it is spelled with. -/
theorem length_lt_of_backslash {cs : List Char} {out : List UInt8} (h : denote cs = some out)
    (hb : '\\' ∈ cs) : out.length < (units cs).length := by
  induction cs generalizing out with
  | nil => simp at hb
  | cons c cs ih =>
    rw [denote, denoteFrom_cons, Reader.next_plain] at h
    obtain ⟨⟨r', us⟩, hplain, hrest⟩ := Option.bind_eq_some_iff.1 h
    obtain ⟨out', hout', rfl⟩ := Option.map_eq_some_iff.1 hrest
    unfold readPlain at hplain
    split at hplain
    · -- the backslash opens an escape, which is paid for by the backslash itself
      obtain ⟨rfl, rfl⟩ := Prod.mk.inj (Option.some.inj hplain)
      have := length_denoteFrom_le hout'
      simp only [Reader.credit, units_cons, List.length_append, String.length_utf8EncodeChar,
        List.length_nil] at this ⊢
      subst c
      have h1 : ('\\' : Char).utf8Size = 1 := by decide
      omega
    split at hplain
    · simp at hplain
    · obtain ⟨rfl, rfl⟩ := Prod.mk.inj (Option.some.inj hplain)
      have hb' : '\\' ∈ cs := by
        rcases List.mem_cons.1 hb with rfl | hb
        · contradiction
        · exact hb
      have := ih hout' hb'
      simp only [units_cons, List.length_append, String.length_utf8EncodeChar]
      omega

/-- A body read through without a backslash stands for exactly its own characters. -/
theorem denote_of_no_backslash {cs : List Char} (h : (denote cs).isSome) (hb : '\\' ∉ cs) :
    denote cs = some (units cs) := by
  induction cs with
  | nil => rfl
  | cons c cs ih =>
    simp only [List.mem_cons, not_or] at hb
    cases hp : readPlain c with
    | none =>
      rw [denote, denoteFrom_cons, Reader.next_plain, hp] at h
      simp at h
    | some p =>
      obtain ⟨r, us⟩ := p
      unfold readPlain at hp
      rw [if_neg (Ne.symm hb.1)] at hp
      split at hp
      · simp at hp
      · obtain ⟨rfl, rfl⟩ := Prod.mk.inj (Option.some.inj hp)
        have hstep : Reader.plain.next c = some (.plain, String.utf8EncodeChar c) := by
          rw [Reader.next_plain, readPlain_of_ne (Ne.symm hb.1) (by simp_all) (by simp_all)
            (by simp_all)]
        rw [denote, denoteFrom_cons_of_next _ hstep] at h ⊢
        rw [← denote, ih (by simpa [denote] using h) hb.2]
        rfl

/-- A body that stands for something stands for its own spelling exactly when it has no
backslash. -/
theorem denote_eq_units_iff {cs : List Char} (h : (denote cs).isSome) :
    denote cs = some (units cs) ↔ '\\' ∉ cs := by
  constructor
  · intro heq hb
    have := length_lt_of_backslash heq hb
    omega
  · exact denote_of_no_backslash h

/-- A carriage return stops every reader. -/
theorem next_carriageReturn (r : Reader) : r.next '\r' = none := by
  cases r with
  | plain | escape => decide
  | octal n v | hex n v => simp [Reader.next, flush, readPlain, digitValue]
  | universal k v => rcases k with _ | _ | k <;> simp [Reader.next, digitValue]

theorem not_mem_carriageReturn {r : Reader} {cs : List Char} (h : (denoteFrom r cs).isSome) :
    '\r' ∉ cs := by
  induction cs generalizing r with
  | nil => simp
  | cons c cs ih =>
    rw [denoteFrom_cons] at h
    obtain ⟨⟨r', us⟩, hnext, hrest⟩ := Option.isSome_iff_exists.1 h |>.choose_spec |> Option.bind_eq_some_iff.1
    simp only [List.mem_cons, not_or]
    refine ⟨fun hc => ?_, ih (r := r') ?_⟩
    · subst hc
      rw [next_carriageReturn] at hnext
      cases hnext
    · obtain ⟨out, hout, -⟩ := Option.map_eq_some_iff.1 hrest
      simp [hout]

end CppLiteral

/-! ## Where a decorator list is written -/

namespace Emit

theorem toList_infix_append (a b c : String) : b.toList <:+: (a ++ b ++ c).toList := by
  simp only [String.toList_append]
  exact List.infix_append _ _ _

theorem infix_intercalate_of_mem {α : Type} {sep l : List α} {L : List (List α)} (h : l ∈ L) :
    l <:+: sep.intercalate L := by
  induction L with
  | nil => simp at h
  | cons x L ih =>
    rcases List.mem_cons.1 h with rfl | h
    · cases L with
      | nil => simp
      | cons y L =>
        rw [List.intercalate_cons_cons, List.append_assoc]
        exact List.infix_append_left
    · cases L with
      | nil => simp at h
      | cons y L =>
        rw [List.intercalate_cons_cons]
        exact List.infix_append_of_infix_right (ih h)

theorem toList_infix_intercalate (sep : String) {s : String} {l : List String} (h : s ∈ l) :
    s.toList <:+: (sep.intercalate l).toList := by
  rw [String.toList_intercalate]
  exact infix_intercalate_of_mem (List.mem_map_of_mem h)

theorem toList_infix_join {s : String} {l : List String} (h : s ∈ l) :
    s.toList <:+: (String.join l).toList := by
  rw [String.toList_join, List.flatMap_def]
  exact List.infix_of_mem_flatten (List.mem_map_of_mem h)

/-- Every line of a macro is written into its definition. -/
theorem toList_infix_define {name l : String} {lines : List String} (h : l ∈ lines) :
    l.toList <:+: (Macro.define name lines).toList := by
  have hjoin := toList_infix_join (List.mem_map_of_mem (f := fun l => " \\\n" ++ l) h)
  simp only [String.toList_append] at hjoin
  simp only [Macro.define, String.toList_append]
  exact (List.infix_append_right.trans hjoin).trans (List.infix_append _ _ _)

/-- Each value of a decorator is written into the decorator list as its literal. -/
theorem literal_infix_decoratorList {ds : DecoratorList} {d : Decorator} {v : String}
    (hd : d ∈ ds.items) (hv : v ∈ d.values) :
    (Quote.literal v).toList <:+: (decoratorList ds).toList := by
  have hds : ds.isEmpty = false := by
    simpa [DecoratorList.isEmpty] using List.ne_nil_of_mem hd
  have hvs : d.values.isEmpty = false := by
    simpa using List.ne_nil_of_mem hv
  have hvalue := toList_infix_intercalate ", " (List.mem_map_of_mem (f := Quote.literal) hv)
  have hitem := toList_infix_intercalate ", " (List.mem_map_of_mem
    (f := fun d : Decorator => if d.values.isEmpty then
        "Meta::Decorator\x7b " ++ Quote.literal d.name ++ ", \x7b\x7d \x7d"
      else "Meta::Decorator\x7b " ++ Quote.literal d.name ++ ", \x7b " ++
        ", ".intercalate (d.values.map Quote.literal) ++ " \x7d \x7d") hd)
  simp only [hvs, Bool.false_eq_true, ite_false, String.toList_append] at hitem
  simp only [decoratorList, hds, Bool.false_eq_true, ite_false, String.toList_append]
  exact (hvalue.trans (List.infix_append _ _ _)).trans (hitem.trans (List.infix_append _ _ _))

/-- The registration of a type writes its decorator list on one of its lines. -/
theorem decoratorList_infix_typeLines (id : String) (t : TypeRegistration) :
    ∃ line ∈ typeLines id t, (decoratorList t.decorators).toList <:+: line.toList := by
  unfold typeLines
  split
  · exact ⟨_, List.mem_singleton_self _, toList_infix_append _ _ _⟩
  · exact ⟨"\t\x7d, " ++ decoratorList t.decorators ++ ");", by simp, toList_infix_append _ _ _⟩

theorem decoratorList_infix_propertyLine (id : String) (p : PropertyRegistration) :
    (decoratorList p.decorators).toList <:+: (propertyLine id p).toList := by
  unfold propertyLine
  exact toList_infix_append _ _ _

/-- The statements of a pass stand in its function, inside its braces. -/
theorem mem_passFunction {plan : RegistrationPlan} {id line : String} {pass : RegistrationPass}
    (h : line ∈ passLines plan id pass) : line ∈ passFunction plan id pass := by
  unfold passFunction
  split
  · next hnil => simp [hnil] at h
  · simp [h]

/-- The lines of every pass function are written into the implementation macro. -/
theorem infix_implementation {plan : RegistrationPlan} {id line : String}
    (pass : RegistrationPass) (h : line ∈ passFunction plan id pass) :
    line.toList <:+: (implementation plan id).toList := by
  unfold implementation
  apply toList_infix_define
  have hpass : pass ∈ RegistrationPass.all := by cases pass <;> decide
  simp only [List.mem_append, List.mem_flatMap]
  exact .inr ⟨pass, hpass, h⟩

end Emit

/-- The decorator lists of a header's records and of their properties are all written into its
generated header. -/
theorem decoratorList_infix_emitHeader {decls : FileDecls} {id : FileId} {includePath : String}
    {ds : DecoratorList}
    (h : ds ∈ decls.records.flatMap fun r => r.decorators :: r.properties.map (·.decorators)) :
    (Emit.decoratorList ds).toList <:+: (emitHeader decls id includePath).contents.toList := by
  have himpl : (Emit.implementation (RegistrationPlan.ofDecls decls) id.text).toList <:+:
      (emitHeader decls id includePath).contents.toList := by
    simp only [emitHeader, String.toList_append]
    exact List.infix_append_right
  refine List.IsInfix.trans ?_ himpl
  obtain ⟨r, hr, hds⟩ := List.mem_flatMap.1 h
  rcases List.mem_cons.1 hds with rfl | hprop
  · -- a record's list is written by the registration of its type
    obtain ⟨line, hline, hinfix⟩ := Emit.decoratorList_infix_typeLines id.text
      ⟨r.name, r.kind, r.decorators, r.bodyLine,
        if r.properties.isEmpty then none else some (serializedFields r decls.enums)⟩
    refine hinfix.trans (Emit.infix_implementation .types (Emit.mem_passFunction ?_))
    simp only [Emit.passLines, RegistrationPlan.ofDecls, List.flatMap_map, List.mem_flatMap]
    exact ⟨r, hr, hline⟩
  · -- a property's list is written by the registration of the property
    obtain ⟨q, hq, rfl⟩ := List.mem_map.1 hprop
    refine (Emit.decoratorList_infix_propertyLine id.text
      ⟨r.name, q.name, q.type, ReadOnly.isReadOnlyType q.type, q.decorators⟩).trans
      (Emit.infix_implementation .properties (Emit.mem_passFunction ?_))
    simp only [Emit.passLines, RegistrationPlan.ofDecls, List.map_flatMap, List.mem_flatMap,
      List.map_map, List.mem_map]
    exact ⟨r, hr, q, hq, rfl⟩

/-! ## Decorator values read from string literals -/

theorem unquote_of_toList {t : String} {body : List Char} (h : t.toList = '"' :: body ++ ['"']) :
    Parser.unquote t = String.ofList body := by
  simp [Parser.unquote, h]

theorem denoteLiteral_of_toList {t : String} {body : List Char}
    (h : t.toList = '"' :: body ++ ['"']) : CppLiteral.denoteLiteral t = CppLiteral.denote body := by
  simp [CppLiteral.denoteLiteral, h]

/-- A quoted decorator value of a class, struct or property is written into the generated header
as a literal that denotes the value's spelling: the characters between the quotes of the string
literal `L` it was read from, escapes kept as written. So the written literal denotes what `L`
denotes exactly when `L` has no backslash. -/
theorem decoratorLiteral_denotes_spelling {text path includePath : String} {id : FileId}
    {ds : DecoratorList}
    (hds : ds ∈ (parseHeader text path).decls.records.flatMap
      fun r => r.decorators :: r.properties.map (·.decorators))
    {d : Decorator} (hd : d ∈ ds.items) {L : Token} (hL : L ∈ (tokenize text).tokens)
    (hstring : L.kind = .string) (hvalue : Parser.unquote L.text ∈ d.values)
    (hwell : (CppLiteral.denoteLiteral L.text).isSome) :
    (Quote.literal (Parser.unquote L.text)).toList <:+:
        (emitHeader (parseHeader text path).decls id includePath).contents.toList ∧
      CppLiteral.denoteLiteral (Quote.literal (Parser.unquote L.text)) =
        some (CppLiteral.units (Parser.unquote L.text).toList) ∧
      (CppLiteral.denoteLiteral (Quote.literal (Parser.unquote L.text)) =
          CppLiteral.denoteLiteral L.text ↔ '\\' ∉ L.text.toList) := by
  obtain ⟨body, hbody⟩ := Scan.quoted_of_mem_tokenize hL hstring
  have hdenote := denoteLiteral_of_toList hbody
  rw [hdenote] at hwell
  have hcr : '\r' ∉ (String.ofList body).toList := by
    simpa using CppLiteral.not_mem_carriageReturn hwell
  refine ⟨(Emit.literal_infix_decoratorList hd hvalue).trans (decoratorList_infix_emitHeader hds),
    ?_, ?_⟩
  · rw [unquote_of_toList hbody]
    exact CppLiteral.denoteLiteral_literal hcr
  · rw [unquote_of_toList hbody, CppLiteral.denoteLiteral_literal hcr, hdenote, hbody,
      String.toList_ofList, eq_comm, CppLiteral.denote_eq_units_iff hwell]
    simp

/-- The value `Say \"hi\"` of a tooltip: the written literal denotes the spelling with its
backslashes, while the literal it was read from denotes `Say "hi"`. -/
theorem decoratorLiteral_denotes_spelling_tooltip :
    let text := "GCLASS(Tooltip(\"Say \\\"hi\\\"\")) class A \x7b \x7d;"
    let L : Token := ⟨.string, "\"Say \\\"hi\\\"\"", ⟨15, 27, 1, 16⟩⟩
    let d : Decorator := ⟨"Tooltip", [Parser.unquote L.text]⟩
    let ds : DecoratorList := ⟨[d]⟩
    (ds ∈ (parseHeader text "A.h").decls.records.flatMap
        fun r => r.decorators :: r.properties.map (·.decorators)) ∧
      d ∈ ds.items ∧ L ∈ (tokenize text).tokens ∧ L.kind = .string ∧
      Parser.unquote L.text ∈ d.values ∧ (CppLiteral.denoteLiteral L.text).isSome ∧
      ((Quote.literal (Parser.unquote L.text)).toList <:+:
          (emitHeader (parseHeader text "A.h").decls ⟨"0123456a_0123_0123_0123_0123456789ab"⟩
            "A.h").contents.toList ∧
        CppLiteral.denoteLiteral (Quote.literal (Parser.unquote L.text)) =
          some (CppLiteral.units (Parser.unquote L.text).toList) ∧
        (CppLiteral.denoteLiteral (Quote.literal (Parser.unquote L.text)) =
            CppLiteral.denoteLiteral L.text ↔ '\\' ∉ L.text.toList)) := by
  intro text L d ds
  have hds : ds ∈ (parseHeader text "A.h").decls.records.flatMap
      fun r => r.decorators :: r.properties.map (·.decorators) := by decide +kernel
  have hL : L ∈ (tokenize text).tokens := by decide +kernel
  have hwell : (CppLiteral.denoteLiteral L.text).isSome := by decide
  have hd : d ∈ ds.items := List.mem_singleton_self d
  have hvalue : Parser.unquote L.text ∈ d.values := List.mem_singleton_self _
  exact ⟨hds, hd, hL, rfl, hvalue, hwell,
    decoratorLiteral_denotes_spelling hds hd hL rfl hvalue hwell⟩

/-- A tooltip `"Say \"hi\""` read as a decorator value is written back as a literal that
denotes `Say \"hi\"`, not the `Say "hi"` that the header wrote. -/
theorem decoratorLiteral_loses_escapes :
    let text := "GCLASS(Tooltip(\"Say \\\"hi\\\"\")) class A \x7b \x7d;"
    let L : Token := ⟨.string, "\"Say \\\"hi\\\"\"", ⟨15, 27, 1, 16⟩⟩
    (parseHeader text "A.h").hasErrors = false ∧ L ∈ (tokenize text).tokens ∧
      (parseHeader text "A.h").decls.records.map (·.decorators) =
        [⟨[⟨"Tooltip", [Parser.unquote L.text]⟩]⟩] ∧
      CppLiteral.denoteLiteral L.text = some (CppLiteral.units "Say \"hi\"".toList) ∧
      CppLiteral.denoteLiteral (Quote.literal (Parser.unquote L.text)) ≠
        CppLiteral.denoteLiteral L.text := by
  intro text L
  refine ⟨by decide +kernel, by decide +kernel, by decide +kernel, by decide, by decide⟩

end TypeReflection
