/-!
# Finding a text inside another

`afterFirst needle hay` is the part of `hay` that follows the first occurrence of `needle`,
and `occursIn` says whether there is one. Both work on character lists, so the answer does
not depend on how a string is stored.
-/

set_option autoImplicit false

namespace TypeReflection.Text

/-- The characters after the first occurrence of `needle` in `hay`, if it occurs. -/
def afterFirst (needle : List Char) : List Char → Option (List Char)
  | [] => if needle.isEmpty then some [] else none
  | c :: cs =>
    if needle.isPrefixOf (c :: cs) then some ((c :: cs).drop needle.length)
    else afterFirst needle cs

/-- Whether `needle` occurs in `hay`. -/
def occursIn (needle hay : String) : Bool :=
  (afterFirst needle.toList hay.toList).isSome

end TypeReflection.Text
