/-!
# Lenient UTF-8 decoding

`decodeLossy` reads bytes as UTF-8 and never fails: every maximal part of an encoding that
cannot be completed becomes one replacement character `U+FFFD`, and decoding goes on with the
byte after that part. A lead byte fixes how many continuation bytes follow and the range each
must lie in; the ranges after `E0`, `ED`, `F0` and `F4` are narrower, which rules out overlong
forms, surrogates and values above `U+10FFFF`. So valid UTF-8 decodes to the text it encodes.
-/

set_option autoImplicit false

namespace TypeReflection.Utf8

/-- The ranges that the continuation bytes after lead byte `b` must lie in, in order; none if
`b` cannot start an encoding of two or more bytes. -/
def continuationRanges (b : UInt8) : Option (List (UInt8 × UInt8)) :=
  let tail : UInt8 × UInt8 := (0x80, 0xBF)
  if 0xC2 ≤ b && b ≤ 0xDF then some [tail]
  else if b == 0xE0 then some [(0xA0, 0xBF), tail]
  else if b == 0xED then some [(0x80, 0x9F), tail]
  else if 0xE1 ≤ b && b ≤ 0xEF then some [tail, tail]
  else if b == 0xF0 then some [(0x90, 0xBF), tail, tail]
  else if b == 0xF4 then some [(0x80, 0x8F), tail, tail]
  else if 0xF1 ≤ b && b ≤ 0xF3 then some [tail, tail, tail]
  else none

/-- How many bytes at the start of `bs` lie in the ranges, in order. -/
def matching : List (UInt8 × UInt8) → List UInt8 → Nat
  | (lo, hi) :: rs, b :: bs => if lo ≤ b && b ≤ hi then matching rs bs + 1 else 0
  | _, _ => 0

/-- The value encoded by a lead byte and its continuation bytes. -/
def codePoint (lead : UInt8) (continuation : List UInt8) : Nat :=
  let leadBits := match continuation.length with
    | 1 => lead.toNat % 32
    | 2 => lead.toNat % 16
    | _ => lead.toNat % 8
  continuation.foldl (fun acc b => acc * 64 + b.toNat % 64) leadBits

/-- Decodes bytes, putting `U+FFFD` for each maximal part that is not a complete encoding. -/
def decodeChars (bs : List UInt8) : List Char :=
  match bs with
  | [] => []
  | b :: rest =>
    if b < 0x80 then Char.ofNat b.toNat :: decodeChars rest
    else match continuationRanges b with
      | none => '\uFFFD' :: decodeChars rest
      | some ranges =>
        let k := matching ranges rest
        let c := if k == ranges.length then Char.ofNat (codePoint b (rest.take k)) else '\uFFFD'
        c :: decodeChars (rest.drop k)
termination_by bs.length
decreasing_by all_goals (simp only [List.length_drop, List.length_cons]; omega)

/-- Decodes bytes as UTF-8, replacing what cannot be decoded. -/
def decodeLossy (bytes : ByteArray) : String := String.ofList (decodeChars bytes.toList)

end TypeReflection.Utf8
