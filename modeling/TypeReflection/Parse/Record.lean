import TypeReflection.Parse.Member

/-!
# Classes and structs

A reflected record reads `GCLASS(...) [;] class [EXPORT] Name [final] [: bases] { ... };`, and
likewise with `GSTRUCT` and `struct`. The name is the last of the names before the `:` or `{`,
once a trailing `final` is dropped; earlier names are export macros.

Base classes run up to the `{` and are split at commas outside angle brackets; access
specifiers and `virtual` are dropped and the rest of each base is spelled from its tokens.
Only classes keep their bases.

The body is scanned with its brace depth: `GENERATED_BODY` anchors the record at its line,
and each `GPROPERTY` or `GMETHOD` marker introduces a member. A member that cannot be read is
reported and the scan goes on from where its reading stopped.
-/

set_option autoImplicit false

namespace TypeReflection.Parser

open Scan

/-- Names that only say how a base is inherited. -/
def isAccessSpecifier (t : Token) : Bool :=
  t.kind == .identifier &&
    (t.text == "public" || t.text == "protected" || t.text == "private" || t.text == "virtual")

/-- Adds the base spelled from `current` (held in reverse) to `parents` (also in reverse),
unless it is empty. -/
def withBase (parents : List String) (current : List Token) : List String :=
  if current.isEmpty then parents else Token.spell current.reverse :: parents

/-- Scans base classes up to the `{`, cut short by the end of input, a `;` or a marker.
`current` holds the tokens of the base being read and `parents` the bases read so far, both in
reverse. -/
def scanBases : List Token → Nat → Nat → List Token → List String → Stop × List String
  | [], i, _, _, parents => (.cut i, parents)
  | t :: ts, i, depth, current, parents =>
    let current' := if isAccessSpecifier t then current else t :: current
    match t.kind with
    | .leftBrace => (.found i, withBase parents current)
    | .eof | .semicolon => (.cut i, parents)
    | .less => scanBases ts (i + 1) (depth + 1) current' parents
    | .greater => scanBases ts (i + 1) (depth - 1) current' parents
    | .comma =>
      if depth == 0 then scanBases ts (i + 1) depth [] (withBase parents current)
      else scanBases ts (i + 1) depth current' parents
    | k => if k.isMarker then (.cut i, parents) else scanBases ts (i + 1) depth current' parents

/-- Reads the base classes up to, not including, the `{`. -/
def baseList : Parser (List String) := do
  let start ← position
  let input ← read
  match scanBases (input.fromIndex start) start 0 [] [] with
  | (.found i, parents) =>
    seek i
    return parents.reverse
  | (.cut i, _) =>
    seek i
    fail "'\x7b'"

/-- Reads the run of names after the keyword and picks the record's name. -/
def recordName (kind : RecordKind) (keyword : Token) : Parser String := do
  let start ← position
  let input ← read
  let names := (input.fromIndex start).takeWhile (·.kind == .identifier)
  seek (start + names.length)
  if !(← check .colon) then
    if !(← check .leftBrace) then fail "'\x7b'"
  let names :=
    if 1 < names.length && (names.getLast?.map (·.text)) == some "final" then names.dropLast
    else names
  match names.getLast? with
  | some t => return t.text
  | none => throw ⟨.missingName kind.keyword, keyword.span, input.path⟩

/-- Reads the decorators of a member and an optional `;` after them. -/
def memberDecorators : Parser DecoratorList := do
  let ds ← decoratorList
  let _ ← eat .semicolon
  return ds

/-- Reads a member with `read` after its marker, reporting the error if it fails. -/
def member {α : Type} (read : Parser α) : Parser (Option (DecoratorList × α)) :=
  tryCatch (do
      let ds ← memberDecorators
      let m ← read
      return some (ds, m))
    (fun e => do
      report e
      return none)

/-- Scans the rest of a record's body at brace depth `depth`, collecting its members. -/
def body (fuel : Nat) (depth : Nat) (record : RecordDecl) : Parser RecordDecl :=
  match fuel with
  | 0 => fail "'\x7d'"
  | fuel + 1 => do
    let t ← current
    match t.kind with
    | .eof => fail "'\x7d'"
    | .leftBrace =>
      let _ ← advance
      body fuel (depth + 1) record
    | .rightBrace =>
      let _ ← advance
      if depth - 1 == 0 then return record
      else body fuel (depth - 1) record
    | .generatedBody =>
      if record.bodyLine.isSome then
        warn s!"'{record.name}' has more than one GENERATED_BODY()" t.span
      let _ ← advance
      body fuel depth { record with bodyLine := some t.span.line }
    | .propertyMarker =>
      let _ ← advance
      match ← member property with
      | some (ds, p) =>
        body fuel depth { record with properties := record.properties ++ [{ p with decorators := ds }] }
      | none => body fuel depth record
    | .methodMarker =>
      let _ ← advance
      match ← member method with
      | some (ds, m) =>
        body fuel depth { record with methods := record.methods ++ [{ m with decorators := ds }] }
      | none => body fuel depth record
    | _ =>
      let _ ← advance
      body fuel depth record

/-- Reads a reflected class or struct from its marker up to, not including, the `{` of its
body: the record without members. -/
def recordHead : Parser RecordDecl := do
  let marker ← advance
  let kind : RecordKind := if marker.kind == .structMarker then .struct else .cls
  let decorators ← decoratorList
  let _ ← eat .semicolon
  let keyword ← expect (match kind with
    | .cls => .kwClass
    | .struct => .kwStruct)
  let name ← recordName kind keyword
  let parents ← if ← eat .colon then baseList else pure []
  return {
    kind, name, path := (← read).path, properties := [], methods := [], decorators,
    parents := if kind == .cls then parents else [], bodyLine := none }

/-- Reads a reflected class or struct, starting at its marker. -/
def record : Parser RecordDecl := do
  let decl ← recordHead
  let _ ← expect .leftBrace
  let decl ← body (← rounds) 1 decl
  let _ ← expect .semicolon
  return decl

end TypeReflection.Parser
