import TypeReflection.Parse.Cursor
import TypeReflection.Decl.Basic

/-!
# Decorator lists

Every reflection marker is followed by a parenthesized list of decorators:
`( Name, Name(value, value), ... )`, with an optional trailing comma in either list. A value
is a quoted text (kept without its quotes), a number with an optional minus and an optional
`f` or `F` glued to it (dropped), or a word followed by any `::name` parts (kept joined by
`::`).
-/

set_option autoImplicit false

namespace TypeReflection.Parser

/-- A bound on the rounds of a loop that consumes a token in every round. -/
def rounds : Parser Nat := return (← read).tokens.size + 1

/-- A quoted text without its outer quotes. -/
def unquote (text : String) : String :=
  match text.toList with
  | '"' :: rest =>
    match rest.reverse with
    | '"' :: body => String.ofList body.reverse
    | _ => text
  | _ => text

/-- Skips an `f` or `F` glued to the number that ended at byte `numberEnd`. -/
def skipFloatSuffix (numberEnd : Nat) : Parser Unit := do
  let t ← current
  if t.span.start == numberEnd && (t.isName "f" || t.isName "F") then
    let _ ← advance

/-- Reads `::name` parts after a word, adding them to `acc`. -/
def qualifiedTail (fuel : Nat) (acc : String) : Parser String :=
  match fuel with
  | 0 => return acc
  | fuel + 1 => do
    if ← check .colonColon then
      let _ ← advance
      let next ← expect .identifier
      qualifiedTail fuel (acc ++ "::" ++ next.text)
    else return acc

/-- Reads one decorator value. -/
def decoratorValue : Parser String := do
  let t ← current
  match t.kind with
  | .string =>
    let _ ← advance
    return unquote t.text
  | .number =>
    let _ ← advance
    skipFloatSuffix t.span.stop
    return t.text
  | .minus =>
    let _ ← advance
    let n ← expect .number
    skipFloatSuffix n.span.stop
    return "-" ++ n.text
  | k =>
    if k.isWord && !k.isMarker then
      let _ ← advance
      qualifiedTail (← rounds) t.text
    else fail "decorator value"

/-- Reads items with `item` up to a `)`, which is left in place; each item is followed by a
`,` or by the `)`. -/
def commaItems {α : Type} (item : Parser α) (fuel : Nat) (acc : Array α) : Parser (Array α) :=
  match fuel with
  | 0 => return acc
  | fuel + 1 => do
    if ← check .rightParen then return acc
    let x ← item
    let separated ← eat .comma
    if !separated then
      if !(← check .rightParen) then fail "',' or ')'"
    commaItems item fuel (acc.push x)

/-- Reads one decorator: a name with an optional parenthesized list of values. -/
def decorator : Parser Decorator := do
  if !(← check .identifier) then fail "decorator name"
  let name := (← advance).text
  if ← eat .leftParen then
    let values ← commaItems decoratorValue (← rounds) #[]
    let _ ← expect .rightParen
    return ⟨name, values.toList⟩
  else return ⟨name, []⟩

/-- Reads a parenthesized decorator list, both parentheses included. -/
def decoratorList : Parser DecoratorList := do
  let _ ← expect .leftParen
  let items ← commaItems decorator (← rounds) #[]
  let _ ← expect .rightParen
  return ⟨items.toList⟩

end TypeReflection.Parser
