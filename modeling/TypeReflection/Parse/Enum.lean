import TypeReflection.Parse.Decorator
import TypeReflection.Parse.Scan
import TypeReflection.EnumValue

/-!
# Enums

A reflected enum reads `GENUM(...) [;] enum [class|struct] [EXPORT] Name [: type] { A, B = 5,
... };`. Its name is the last of the names after the keywords; decorators are read and then
ignored, with a warning. An entry without a value takes the previous value plus one, stopping
at the largest 64-bit integer, and the first entry defaults to zero. A value is an integer
literal, decimal or hexadecimal after `0x` or `0X`, with an optional minus before it; it must
fit in a signed 64-bit integer before the minus is applied.
-/

set_option autoImplicit false

namespace TypeReflection

/-- The value of a digit in base `base`, if it is one. -/
def digitValue (base : Nat) (c : Char) : Option Nat :=
  let d :=
    if c.isDigit then some (c.toNat - '0'.toNat)
    else if 'a' ≤ c && c ≤ 'z' then some (c.toNat - 'a'.toNat + 10)
    else if 'A' ≤ c && c ≤ 'Z' then some (c.toNat - 'A'.toNat + 10)
    else none
  d.filter (· < base)

/-- The value of a nonempty run of digits in base `base`, read after the value `acc`. -/
def digitsValue (base : Nat) (acc : Nat) : List Char → Option Nat
  | [] => some acc
  | c :: cs => (digitValue base c).bind fun d => digitsValue base (acc * base + d) cs

/-- The value of an integer literal of an enum: decimal, or hexadecimal after `0x` or `0X`;
none when it is no such literal or exceeds `maxInt64`. -/
def enumLiteral (text : String) : Option Int :=
  let (base, digits) := match text.toList with
    | '0' :: x :: rest => if x == 'x' || x == 'X' then (16, rest) else (10, text.toList)
    | cs => (10, cs)
  let value := if digits.isEmpty then none else digitsValue base 0 digits
  match value with
  | some n => if (n : Int) ≤ maxInt64 then some n else none
  | none => none

namespace Parser

open Scan

/-- Reads an enum value: an optional minus and an integer literal. -/
def enumValue : Parser Int := do
  let negative ← eat .minus
  let t ← expect .number
  match enumLiteral t.text with
  | some v => return if negative then -v else v
  | none => throw ⟨.invalidEnumValue t.text, t.span, (← read).path⟩

/-- Reads enum entries up to the `}`, which is left in place. `next` is the value of an entry
without one. -/
def enumEntries (fuel : Nat) (next : Int) (acc : Array EnumEntry) : Parser (Array EnumEntry) :=
  match fuel with
  | 0 => return acc
  | fuel + 1 => do
    if ← check .rightBrace then return acc
    if !(← check .identifier) then fail "enumerator name"
    let entry ← advance
    let value ← if ← eat .equal then enumValue else pure next
    let separated ← eat .comma
    if !separated then
      if !(← check .rightBrace) then fail "',' or '\x7d'"
    enumEntries fuel (nextEnumValue value) (acc.push ⟨entry.text, value⟩)

/-- Reads a reflected enum, starting at its marker. -/
def enumDecl : Parser EnumDecl := do
  let marker ← expect .enumMarker
  let decorators ← decoratorList
  let _ ← eat .semicolon
  let _ ← expect .kwEnum
  let isScoped ← if ← eat .kwClass then pure true else eat .kwStruct
  let start ← position
  let input ← read
  let names := (input.fromIndex start).takeWhile (·.kind == .identifier)
  seek (start + names.length)
  let name ← match names.getLast? with
    | some t => pure t.text
    | none => fail "enum name"
  if !decorators.isEmpty then
    warn s!"Decorators on enum '{name}' are ignored" marker.span
  if ← eat .colon then
    let here ← position
    match scanTo .leftBrace (fun k => k == .eof || k == .semicolon) (input.fromIndex here) here with
    | .found i => seek i
    | .cut i =>
      seek i
      fail "'\x7b'"
  let _ ← expect .leftBrace
  let values ← enumEntries (← rounds) 0 #[]
  let _ ← expect .rightBrace
  let _ ← expect .semicolon
  return ⟨name, input.path, values.toList, isScoped⟩

end Parser

end TypeReflection
