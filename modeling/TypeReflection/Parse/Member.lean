import TypeReflection.Parse.Decorator
import TypeReflection.Parse.Scan

/-!
# Properties and methods

A member declaration is found by scanning forward to its end and then read backwards from
there.

A *property* ends at its `;`; its declarator ends at the first `=` outside angle brackets, or at
the `;`. Trailing `[N]` groups are kept as part of the type and a trailing `{...}` initializer is
dropped; the name before them must be a plain name, and everything ahead of the name is the
type.

A *method* ends at the first `;`, `{` or `=` outside parentheses. After it comes a `;`, an inline
body in braces (with an optional `;`), or an `= ...;` tail. Reading back over the qualifiers
`const`, `noexcept`, `override` and `final` leads to the `)` that closes the parameters; the
name stands before the matching `(` and the return type before the name.
-/

set_option autoImplicit false

namespace TypeReflection.Parser

open Scan

/-- Strips trailing bracket and brace groups from `tokens[0, index)`. Bracket groups are
spelled and added, in header order, in front of `groups`; brace groups are dropped. Gives the
index where the declarator ends and the kept groups. -/
def stripGroups (tokens : Array Token) (index : Nat) (groups : List String) :
    Nat × List String :=
  if 0 < index then
    let last := tokens[index - 1]?.map (·.kind)
    let pair : Option (TokenKind × TokenKind) :=
      if last == some .rightBracket then some (.leftBracket, .rightBracket)
      else if last == some .rightBrace then some (.leftBrace, .rightBrace)
      else none
    match pair with
    | none => (index, groups)
    | some (openKind, closeKind) =>
      match matchingOpen tokens openKind closeKind (index - 1) 0 with
      | none => (index, groups)
      | some openIndex =>
        if openIndex < index then
          let groups :=
            if closeKind == .rightBracket then
              Token.spell (tokens.extract openIndex index).toList :: groups
            else groups
          stripGroups tokens openIndex groups
        else (index, groups)
  else (index, groups)
termination_by index

/-- Reads a data member up to and including its `;`. -/
def property : Parser PropertyDecl := do
  let start ← position
  let input ← read
  match scanProperty (input.fromIndex start) start 0 none with
  | (.cut i, _) =>
    seek i
    fail "';'"
  | (.found stop, boundary) =>
    let tokens := input.tokens.extract start (boundary.getD stop)
    seek (stop + 1)
    let (index, groups) := stripGroups tokens tokens.size []
    let name? := if 0 < index then tokens[index - 1]?.filter (·.kind == .identifier) else none
    match name? with
    | none =>
      let span := match tokens.back? with
        | some t => t.span
        | none => (input.tokenAt stop).span
      throw ⟨.missingName "property", span, input.path⟩
    | some nameToken =>
      let nameIndex := index - 1
      if nameIndex == 0 then
        warn s!"Property '{nameToken.text}' has no type, declaration may be misparsed"
          nameToken.span
      let type := Token.spell (tokens.toList.take nameIndex) ++ String.join groups
      return ⟨type, nameToken.text, .empty, nameToken.span.line⟩

/-- The qualifiers that may follow a method's parameters. -/
def isMethodQualifier (t : Token) : Bool :=
  t.kind == .kwConst || t.isName "noexcept" || t.isName "override" || t.isName "final"

/-- Consumes what follows a method's declarator: an inline body with an optional `;`, an
`= ...;` tail, or a plain `;`. -/
def skipMethodTail : Parser Unit := do
  let t ← current
  let start ← position
  let input ← read
  match t.kind with
  | .leftBrace =>
    match scanBraces (input.fromIndex start) start 0 with
    | .found i =>
      seek i
      let _ ← advance
      let _ ← eat .semicolon
    | .cut i =>
      seek i
      fail "'\x7d'"
  | .equal =>
    match scanTo .semicolon (fun k => k == .eof || k.isMarker) (input.fromIndex start) start with
    | .found i =>
      seek i
      let _ ← advance
    | .cut i =>
      seek i
      fail "';'"
  | _ =>
    let _ ← expect .semicolon

/-- Reads a member function declaration, skipping any inline body. -/
def method : Parser MethodDecl := do
  let start ← position
  let input ← read
  match scanMethod (input.fromIndex start) start 0 with
  | .cut i =>
    seek i
    fail "';'"
  | .found boundary =>
    let tokens := input.tokens.extract start boundary
    seek boundary
    skipMethodTail
    let close := (tokens.toList.reverse.dropWhile isMethodQualifier).length
    let closing? := if 0 < close then tokens[close - 1]? else none
    match closing? with
    | some closing =>
      if closing.kind != .rightParen then
        throw (ParseError.unexpected "')'" closing input.path)
      let closeIndex := close - 1
      match matchingOpen tokens .leftParen .rightParen closeIndex 0 with
      | none => throw (ParseError.unexpected "'('" closing input.path)
      | some openIndex =>
        let opening := tokens[openIndex]?.getD closing
        let name? := if 0 < openIndex then
            tokens[openIndex - 1]?.filter (·.kind == .identifier)
          else none
        match name? with
        | none => throw ⟨.missingName "method", opening.span, input.path⟩
        | some nameToken =>
          let returnType := Token.spell (tokens.toList.take (openIndex - 1))
          return ⟨returnType, nameToken.text, .empty, nameToken.span.line⟩
    | none => throw (ParseError.unexpected "')'" (input.tokenAt boundary) input.path)

end TypeReflection.Parser
