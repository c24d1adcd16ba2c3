import TypeReflection.Proofs.Emit.Literal
import TypeReflection.Proofs.Emit.HeaderMacros

/-!
# Reading a quoted text back

`Quote.literal` writes a text between double quotes and escapes four characters in the body: a
quote, a backslash, a line feed and a tab. This module reads such a body back with exactly those
four simple escapes (`unescape`), refusing a quote or a backslash that stands alone, and states
what the writer guarantees for every text (`literal_reads_back`): the literal is a quote, the
body and a quote; the body holds no line feed; it is read back as the text, so every quote in it
is escaped; and it holds a raw carriage return for each one of the text.

A carriage return is the one line break the writer leaves raw, so the literal written for a text
that holds one breaks its line inside the quotes (`literal_keeps_carriage_return`).
-/

set_option autoImplicit false

namespace TypeReflection.Quote

/-- The character that the simple escape `\e` stands for, for the four escapes the writer
uses. -/
def escaped? (e : Char) : Option Char :=
  if e = '"' then some '"'
  else if e = '\\' then some '\\'
  else if e = 'n' then some '\n'
  else if e = 't' then some '\t'
  else none

/-- Reads the body of a literal: a backslash and the character after it are one escape, any
other character but a quote stands for itself. A quote that stands alone, a backslash at the end
and an escape the writer never uses are refused. -/
def unescape : List Char → Option (List Char)
  | [] => some []
  | '\\' :: e :: rest => (escaped? e).bind fun c => (unescape rest).map (c :: ·)
  | ['\\'] => none
  | c :: rest => if c = '"' then none else (unescape rest).map (c :: ·)

/-- A character the writer keeps as it is reads back as itself. -/
theorem unescape_plain {c : Char} (hq : c ≠ '"') (hb : c ≠ '\\') (rest : List Char) :
    unescape (c :: rest) = (unescape rest).map (c :: ·) := by
  rw [unescape.eq_def]
  split <;> simp_all

/-- An escape written for `c` reads back as `c`. -/
theorem unescape_escape {c e : Char} (he : escaped? e = some c) (rest : List Char) :
    unescape ('\\' :: e :: rest) = (unescape rest).map (c :: ·) := by
  simp [unescape, he]

/-- Each character is read back from what the writer writes for it, whatever follows. -/
theorem unescape_escapeChar_append (c : Char) (rest : List Char) :
    unescape (escapeChar c ++ rest) = (unescape rest).map (c :: ·) := by
  by_cases h1 : c = '"'
  · subst c
    exact unescape_escape (by decide) rest
  by_cases h2 : c = '\\'
  · subst c
    exact unescape_escape (by decide) rest
  by_cases h3 : c = '\n'
  · subst c
    exact unescape_escape (by decide) rest
  by_cases h4 : c = '\t'
  · subst c
    exact unescape_escape (by decide) rest
  -- every other character is written as it is
  have hplain : escapeChar c = [c] := by
    unfold escapeChar
    split <;> simp_all
  rw [hplain, List.singleton_append, unescape_plain h1 h2]

/-- The body written for a text reads back as the text. -/
theorem unescape_encode (cs : List Char) : unescape (encode cs) = some cs := by
  induction cs with
  | nil => rfl
  | cons c cs ih =>
    rw [encode, List.flatMap_cons, ← encode, unescape_escapeChar_append, ih]
    rfl

/-- The writer copies carriage returns as they are: one for each, and no other character
turns into one. -/
theorem count_cr_escapeChar (c : Char) :
    (escapeChar c).count '\r' = if c = '\r' then 1 else 0 := by
  unfold escapeChar
  split
  case h_5 => by_cases hc : c = '\r' <;> simp [hc]
  all_goals simp

theorem count_cr_encode (cs : List Char) : (encode cs).count '\r' = cs.count '\r' := by
  induction cs with
  | nil => rfl
  | cons c cs ih =>
    rw [encode, List.flatMap_cons, ← encode, List.count_append, ih, count_cr_escapeChar,
      List.count_cons]
    by_cases h : c = '\r' <;> simp [h, Nat.add_comm]

/-- The literal written for any text is a quote, a body and a quote; the body holds no line
feed, reads back as the text with the four simple escapes (so no quote stands in it unescaped),
and holds a raw carriage return for each carriage return of the text. -/
theorem literal_reads_back (t : String) :
    (literal t).toList = '"' :: encode t.toList ++ ['"'] ∧ '\n' ∉ encode t.toList ∧
      unescape (encode t.toList) = some t.toList ∧
      (encode t.toList).count '\r' = t.toList.count '\r' := by
  have hshape := CppLiteral.literal_toList t
  refine ⟨hshape, fun h => newline_not_mem_literal t ?_, unescape_encode _, count_cr_encode _⟩
  rw [hshape]
  exact List.mem_cons_of_mem _ (List.mem_append_left _ h)

/-- A carriage return is written raw: the literal for `a`, a carriage return and `b` breaks its
line between the quotes. -/
theorem literal_keeps_carriage_return : (literal "a\rb").toList = ['"', 'a', '\r', 'b', '"'] := by
  decide

end TypeReflection.Quote
