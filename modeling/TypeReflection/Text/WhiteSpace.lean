/-!
# White space in the Unicode sense

The characters with the Unicode property White_Space: the ASCII blanks and line breaks, next
line, no-break space, ogham space mark, the typographic spaces U+2000 to U+200A, the line and
paragraph separators, the narrow no-break space, the medium mathematical space and the
ideographic space.
-/

set_option autoImplicit false

namespace TypeReflection.Text

/-- Whether a character is white space in the Unicode sense. -/
def isWhiteSpace (c : Char) : Bool :=
  let n := c.toNat
  (0x09 ≤ n && n ≤ 0x0D) || n == 0x20 || n == 0x85 || n == 0xA0 || n == 0x1680 ||
    (0x2000 ≤ n && n ≤ 0x200A) || n == 0x2028 || n == 0x2029 || n == 0x202F || n == 0x205F ||
    n == 0x3000

end TypeReflection.Text
