import TypeReflection.Token.Scan
import TypeReflection.Naming
import TypeReflection.Text.Search

/-!
# The token stream of a header

`tokenize` runs the scanning step over a whole header. It keeps tokens, drops gaps and stray
characters, and reports malformed numbers and unterminated texts as `LexIssue`s, which never
stop the scan. The stream always ends with exactly one end-of-input token, whose span is empty
and stands at the end of the header.

Positions are kept as the scan goes: byte offsets count UTF-8 bytes, a line feed starts a new
line, and every other character moves one column on.
-/

set_option autoImplicit false

namespace TypeReflection

/-- A point of the header: byte offset, line and column. -/
structure Position where
  offset : Nat
  line : Nat
  column : Nat
  deriving DecidableEq, Repr

namespace Position

/-- The start of a header. -/
def start : Position := ⟨0, 1, 1⟩

/-- The point after reading one character. -/
def next (p : Position) (c : Char) : Position :=
  if c == '\n' then ⟨p.offset + c.utf8Size, p.line + 1, 1⟩
  else ⟨p.offset + c.utf8Size, p.line, p.column + 1⟩

/-- The point after reading some characters. -/
def after (p : Position) (cs : List Char) : Position := cs.foldl next p

/-- The span from this point to the point after reading `cs`. -/
def spanOver (p : Position) (cs : List Char) : Span :=
  ⟨p.offset, (p.after cs).offset, p.line, p.column⟩

end Position

/-- An anomaly of the scan: reported with its place, and otherwise ignored. -/
inductive LexIssue where
  /-- A number whose exponent is followed by a fraction. -/
  | malformedNumber (text : String) (span : Span)
  /-- A quoted text that is never closed. -/
  | unterminatedString (span : Span)
  deriving DecidableEq, Repr

namespace LexIssue

/-- Where the anomaly starts. -/
def span : LexIssue → Span
  | malformedNumber _ s => s
  | unterminatedString s => s

/-- The report of the anomaly, with its line and column. -/
def message : LexIssue → String
  | malformedNumber text s =>
    s!"unexpected number literal '{text}' at line {s.line} col {s.column}"
  | unterminatedString s =>
    s!"unexpected string literal at line {s.line} col {s.column}"

/-- What the writer of the header can do about the anomaly. -/
def hint : LexIssue → String
  | malformedNumber .. => "an exponent cannot be followed by a fraction"
  | unterminatedString _ => "add a closing quote to terminate the string"

end LexIssue

/-- The result of scanning a header: its tokens, the last of which is the end-of-input token,
and the anomalies in the order met. -/
structure TokenStream where
  tokens : Array Token
  issues : Array LexIssue
  deriving Repr

namespace Scan

/-- Scans `cs`, which starts at `pos`, adding to what was found before it. -/
def scanFrom (cs : List Char) (pos : Position) (found : TokenStream) : TokenStream :=
  match cs with
  | [] => { found with tokens := found.tokens.push (Token.endOfInput (pos.spanOver [])) }
  | c :: rest =>
    let (piece, more) := step c rest
    let taken := c :: rest.take more
    let span := pos.spanOver taken
    let found := match piece with
      | .token kind => { found with tokens := found.tokens.push ⟨kind, String.ofList taken, span⟩ }
      | .malformedNumber =>
        { found with issues := found.issues.push (.malformedNumber (String.ofList taken) span) }
      | .unterminatedString => { found with issues := found.issues.push (.unterminatedString span) }
      | .gap | .stray => found
    scanFrom (rest.drop more) (pos.after taken) found
termination_by cs.length
decreasing_by
  simp only [List.length_drop, List.length_cons]
  omega

end Scan

/-- Scans a whole header. -/
def tokenize (text : String) : TokenStream :=
  Scan.scanFrom text.toList Position.start ⟨#[], #[]⟩

namespace TokenStream

/-- Whether any reflection marker appears among the tokens, that is outside comments and
quoted texts. -/
def hasMarkers (s : TokenStream) : Bool :=
  s.tokens.any (·.kind.isMarker)

/-- The tokens without the end-of-input token. -/
def body (s : TokenStream) : Array Token :=
  s.tokens.filter (·.kind != .eof)

end TokenStream

/-- Whether a header's text names the generated companion of the header with stem `stem`
anywhere, comments included. -/
def includesGeneratedHeader (text stem : String) : Bool :=
  Text.occursIn (Naming.generatedFileName stem) text

end TypeReflection
