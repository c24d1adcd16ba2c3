import TypeReflection.Text.Alphanumeric

/-!
# Read-only property types

A property cannot be assigned through the registry when its type is a reference or an array,
or when its outermost level is `const`. The outermost level is read left to right at angle
depth zero: the word `const` marks it constant, and a later `*` starts a new level (a pointer)
that is not. So `const char*` is writable and `const char* const` is not.

Words are runs of Unicode letters, digits and underscores, so `constant_t` and `consté` are
not the keyword.
-/

set_option autoImplicit false

namespace TypeReflection.ReadOnly

/-- Characters that continue a word. -/
def isWordChar (c : Char) : Bool := Text.isAlphanumeric c || c == '_'

/-- Reads type text `cs` at angle depth `depth`, with the word read so far at depth zero
(reversed) and whether the current outermost level is constant so far. -/
def outerConst : List Char → Nat → List Char → Bool → Bool
  | [], _, _, constant => constant
  | c :: cs, depth, word, constant =>
    if isWordChar c then
      outerConst cs depth (if depth == 0 then c :: word else word) constant
    else
      let constant := constant || word == "const".toList.reverse
      match c with
      | '<' => outerConst cs (depth + 1) [] constant
      | '>' => outerConst cs (depth - 1) [] constant
      | '*' => outerConst cs depth [] (if depth == 0 then false else constant)
      | _ => outerConst cs depth [] constant

/-- Whether a property of type text `type` is read-only. -/
def isReadOnlyType (type : String) : Bool :=
  type.endsWith "&" || type.endsWith "]" || outerConst (type.toList ++ [' ']) 0 [] false

end TypeReflection.ReadOnly
