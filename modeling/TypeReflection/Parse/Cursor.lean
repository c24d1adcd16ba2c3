import TypeReflection.Parse.Diagnostic

/-!
# Reading a token stream

The parser reads a fixed stream of tokens whose last token is the end of input, through a
cursor that only moves forward and never past that last token: reading at or beyond the end
gives the end-of-input token again. Errors and warnings are collected beside the cursor;
when a step fails, what it moved and reported stays, so that parsing can resume from where the
failure left the cursor.
-/

set_option autoImplicit false

namespace TypeReflection

/-- The tokens a parser reads, never empty, and the path of their header. -/
structure ParseInput where
  tokens : Array Token
  path : String
  nonempty : 0 < tokens.size

namespace ParseInput

/-- The index of the last token. -/
def lastIndex (input : ParseInput) : Nat := input.tokens.size - 1

/-- The token at index `i`, or the last token when `i` is beyond it. -/
def tokenAt (input : ParseInput) (i : Nat) : Token :=
  have h : min i input.lastIndex < input.tokens.size := by
    have := input.nonempty
    simp only [lastIndex]
    omega
  input.tokens[min i input.lastIndex]

/-- The tokens from index `i` to the end. -/
def fromIndex (input : ParseInput) (i : Nat) : List Token := input.tokens.toList.drop i

/-- The tokens with indices in `[lo, hi)`. -/
def slice (input : ParseInput) (lo hi : Nat) : List Token := (input.tokens.extract lo hi).toList

end ParseInput

/-- Where the parser stands and what it has reported. -/
structure ParseState where
  pos : Nat
  diagnostics : Diagnostics
  deriving Repr

/-- A parsing step: reads the input, may fail with a parse error, and moves the state whether
it fails or not. -/
abbrev Parser := ReaderT ParseInput (ExceptT ParseError (StateM ParseState))

namespace Parser

/-- The index of the current token. -/
def position : Parser Nat := return (← get).pos

/-- The current token. -/
def current : Parser Token := return (← read).tokenAt (← get).pos

/-- The token at index `i`, the last one if `i` is beyond it. -/
def tokenAt (i : Nat) : Parser Token := return (← read).tokenAt i

/-- Moves the cursor to index `i`, or to the last token if `i` is beyond it. -/
def seek (i : Nat) : Parser Unit := do
  let last := (← read).lastIndex
  modify fun s => { s with pos := min i last }

/-- Gives the current token and moves past it, unless it is the last one. -/
def advance : Parser Token := do
  let t ← current
  let last := (← read).lastIndex
  modify fun s => { s with pos := if s.pos < last then s.pos + 1 else s.pos }
  return t

/-- Whether the current token has kind `k`. -/
def check (k : TokenKind) : Parser Bool := return (← current).kind == k

/-- Moves past the current token if it has kind `k`, and says whether it did. -/
def eat (k : TokenKind) : Parser Bool := do
  if ← check k then
    let _ ← advance
    return true
  else return false

/-- Whether the cursor stands on the end of input. -/
def atEnd : Parser Bool := check .eof

/-- The error for the current token where `expected` was needed. -/
def unexpected (expected : String) : Parser ParseError :=
  return ParseError.unexpected expected (← current) (← read).path

/-- Fails with the error for the current token where `expected` was needed. -/
def fail {α : Type} (expected : String) : Parser α := do throw (← unexpected expected)

/-- Takes a token of kind `k`, or fails naming that kind. -/
def expect (k : TokenKind) : Parser Token := do
  if ← check k then advance else fail k.describe

/-- Reports a warning. -/
def warn (message : String) (span : Span) : Parser Unit := do
  let path := (← read).path
  modify fun s => { s with diagnostics.warnings := s.diagnostics.warnings.push ⟨message, span, path⟩ }

/-- Reports an error and goes on. -/
def report (e : ParseError) : Parser Unit :=
  modify fun s => { s with diagnostics.errors := s.diagnostics.errors.push e }

/-- The path of the header. -/
def path : Parser String := return (← read).path

end Parser

end TypeReflection
