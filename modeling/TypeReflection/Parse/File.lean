import TypeReflection.Parse.Record
import TypeReflection.Parse.Enum

/-!
# Parsing a header

The parser walks the token stream looking for markers: `GCLASS` and `GSTRUCT` start a record,
`GENUM` an enum, and every other token is passed over. A declaration that cannot be read is
reported, and the walk resumes where its reading stopped, or one token further if it stopped
where it began. So one bad declaration never hides the ones after it.

`parseHeader` scans the text first; anomalies of the scan come first among the warnings.
-/

set_option autoImplicit false

namespace TypeReflection

/-- What parsing a header gives: its declarations and the diagnostics. -/
structure ParsedFile where
  decls : FileDecls
  diagnostics : Diagnostics
  deriving Repr

/-- Whether the parse reported an error. -/
def ParsedFile.hasErrors (p : ParsedFile) : Bool := p.diagnostics.hasErrors

namespace Parser

/-- Reports a failed declaration and makes sure the walk moves on from `start`. -/
def recover (start : Nat) (decls : FileDecls) (e : ParseError) : Parser FileDecls := do
  report e
  if (← position) == start then
    let _ ← advance
  return decls

/-- Walks the tokens, collecting declarations. -/
def declarations (fuel : Nat) (decls : FileDecls) : Parser FileDecls :=
  match fuel with
  | 0 => return decls
  | fuel + 1 => do
    if ← atEnd then return decls
    let start ← position
    let t ← current
    let decls ←
      if t.kind == .classMarker || t.kind == .structMarker then
        tryCatch (do
            let r ← record
            return { decls with records := decls.records ++ [r] })
          (recover start decls)
      else if t.kind == .enumMarker then
        tryCatch (do
            let e ← enumDecl
            return { decls with enums := decls.enums ++ [e] })
          (recover start decls)
      else do
        let _ ← advance
        pure decls
    declarations fuel decls

end Parser

/-- The tokens a parser reads: `tokens`, with an end-of-input token added after the last one
(at its end, with its line and column) unless they already end with one. -/
def ParseInput.ofTokens (tokens : Array Token) (path : String) : ParseInput :=
  match h : tokens.back? with
  | some t =>
    if t.kind == .eof then
      ⟨tokens, path, by
        cases tokens with
        | mk xs => cases xs with
          | nil => simp at h
          | cons _ _ => simp⟩
    else ⟨tokens.push (Token.endOfInput t.span.atEnd), path, by simp⟩
  | none => ⟨#[Token.endOfInput ⟨0, 0, 1, 1⟩], path, by simp⟩

/-- Parses a token stream, after the given warnings. -/
def parseTokens (tokens : Array Token) (path : String) (warnings : Array Warning) : ParsedFile :=
  let input := ParseInput.ofTokens tokens path
  let start : ParseState := ⟨0, ⟨#[], warnings⟩⟩
  let (result, state) := (Parser.declarations (input.tokens.size + 1) ⟨path, [], []⟩ input).run start
  let decls := match result with
    | .ok d => d
    | .error _ => ⟨path, [], []⟩
  ⟨decls, state.diagnostics⟩

/-- Scans and parses a header. -/
def parseHeader (text path : String) : ParsedFile :=
  let scanned := tokenize text
  parseTokens scanned.tokens path (scanned.issues.map (Warning.ofIssue path))

end TypeReflection
