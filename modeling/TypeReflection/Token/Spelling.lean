import TypeReflection.Token.Basic

/-!
# Spelling a run of tokens

Types and base classes are kept as the text of their tokens, written in one canonical way
whatever the blanks and comments of the header were: a blank goes between two words and between
a `*` or `&` and a following word, a comma is followed by a blank, and nothing else is added.
So `std :: map < int,float >` is spelled `std::map<int, float>` and `Mesh*const` is spelled
`Mesh* const`.
-/

set_option autoImplicit false

namespace TypeReflection.Token

/-- Whether a blank goes before a token of kind `k` that follows a token of kind `prev`. -/
def blankBefore (prev : Option TokenKind) (k : TokenKind) : Bool :=
  match prev with
  | none => false
  | some .star | some .amp => k.isWord
  | some p => k.isWord && p.isWord

/-- Spells the tokens that follow a token of kind `prev`. -/
def spellAfter (prev : Option TokenKind) : List Token → String
  | [] => ""
  | t :: ts =>
    (if blankBefore prev t.kind then " " else "") ++ t.text ++
      (if t.kind == .comma then " " else "") ++ spellAfter (some t.kind) ts

/-- The canonical spelling of a run of tokens. -/
def spell (tokens : List Token) : String := spellAfter none tokens

end TypeReflection.Token
