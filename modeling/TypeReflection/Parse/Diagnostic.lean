import TypeReflection.Token.Stream

/-!
# Parse errors and warnings

A parse error says what was expected where; it stops the declaration being read, and parsing
resumes after it. A warning reports something odd that does not stop anything. Both carry the
span they point at and the path of the header, and both are shown as
`<message> at line L column C` followed by a line `File: <path>`.
-/

set_option autoImplicit false

namespace TypeReflection

/-- Why a declaration could not be read. -/
inductive ParseProblem where
  /-- Another token than the expected one. -/
  | unexpectedToken (expected found : String)
  /-- The header ended where `expected` was needed. -/
  | unexpectedEnd (expected : String)
  /-- A reflection marker stands where `expected` was needed: the declaration is unfinished
  and the marker starts the next one. -/
  | markerInDeclaration (expected : String) (marker : TokenKind)
  /-- A declaration of a `what` has no name. -/
  | missingName (what : String)
  /-- An enum value that is not an integer of 64 bits. -/
  | invalidEnumValue (text : String)
  deriving DecidableEq, Repr

/-- The one-line description of a problem. -/
def ParseProblem.message : ParseProblem → String
  | .unexpectedToken expected found => s!"Expected {expected} but found {found}"
  | .unexpectedEnd expected => s!"Unexpected end of file, expected {expected}"
  | .markerInDeclaration expected marker => s!"Expected {expected} but found '{marker.spelling}'"
  | .missingName what => s!"Missing {what} name"
  | .invalidEnumValue text => s!"Invalid enum value '{text}'"

/-- How a message is shown with its place. -/
def located (message : String) (span : Span) (path : String) : String :=
  s!"{message} at line {span.line} column {span.column}\nFile: {path}"

/-- A parse error: the problem, where it is, and in which header. -/
structure ParseError where
  problem : ParseProblem
  span : Span
  path : String
  deriving DecidableEq, Repr

namespace ParseError

/-- The error for finding `found` where `expected` was needed. -/
def unexpected (expected : String) (found : Token) (path : String) : ParseError :=
  let problem := match found.kind with
    | .eof => .unexpectedEnd expected
    | k => if k.isMarker then .markerInDeclaration expected k
      else .unexpectedToken expected found.describe
  ⟨problem, found.span, path⟩

/-- The one-line description of the error. -/
def message (e : ParseError) : String := e.problem.message

/-- Whether a reflection marker cut the declaration short. -/
def isMisplacedMarker (e : ParseError) : Bool :=
  match e.problem with
  | .markerInDeclaration .. => true
  | _ => false

/-- The error with its place. -/
def display (e : ParseError) : String := located e.message e.span e.path

end ParseError

/-- A warning: a message, where it points, and in which header. -/
structure Warning where
  message : String
  span : Span
  path : String
  deriving DecidableEq, Repr

namespace Warning

/-- The warning with its place. -/
def display (w : Warning) : String := located w.message w.span w.path

/-- The warning for a scanning anomaly: it was ignored, and the hint says why. -/
def ofIssue (path : String) (issue : LexIssue) : Warning :=
  let what := match issue with
    | .malformedNumber text _ => s!"Malformed number '{text}' ignored"
    | .unterminatedString _ => "Unterminated string literal ignored"
  ⟨s!"{what} ({issue.hint})", issue.span, path⟩

end Warning

/-- The errors and warnings of a parse, each in the order reported. -/
structure Diagnostics where
  errors : Array ParseError
  warnings : Array Warning
  deriving Repr

namespace Diagnostics

/-- No errors and no warnings. -/
def empty : Diagnostics := ⟨#[], #[]⟩

/-- Whether any error was reported. -/
def hasErrors (d : Diagnostics) : Bool := !d.errors.isEmpty

/-- Whether nothing at all was reported. -/
def isEmpty (d : Diagnostics) : Bool := d.errors.isEmpty && d.warnings.isEmpty

end Diagnostics

end TypeReflection
