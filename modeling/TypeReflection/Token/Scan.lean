import TypeReflection.Token.Basic

/-!
# One scanning step

The scanner is a longest-match reader: at each point of the header it takes the longest
stretch that forms a token, a blank run or a comment, and a keyword beats a name of the same
length. `Scan.step` reads one such piece. The first character always belongs to the piece, so
the whole scan shortens its input at every step and ends.

Three irregular readings are part of the grammar of numbers and are kept exactly:
- integer digits followed by a dot form a number even with nothing after the dot (`1.` in
  `1.x`), while a dot after a fraction is not taken (`1.5.` reads `1.5`);
- an exponent followed by a dot is a *malformed number* (`1e5.2`), reported and dropped;
- a number ending in an incomplete exponent gives the exponent letter back (`1e+x` reads
  `1`, `e`, `x`).

One more belongs to words: a word directly followed by `×` or `÷`, the two Latin-1 signs
among the Latin-1 letters, is always a plain name, so `class×` is the name `class` and a
stray sign.

Characters that start no piece (`+ . ! ? ~ @`, letters outside Latin-1, and so on) are stray
and dropped one at a time.
-/

set_option autoImplicit false

namespace TypeReflection.Scan

/-- The blanks between tokens: space, tab, carriage return, line feed, form feed and vertical
tab. -/
def isBlank (c : Char) : Bool :=
  c == ' ' || c == '\t' || c == '\r' || c == '\n' || c == '\x0c' || c == '\x0b'

/-- The Latin-1 letters: U+00C0 to U+00FF without the multiplication and division signs. -/
def isLatinLetter (c : Char) : Bool :=
  0xC0 ≤ c.toNat && c.toNat ≤ 0xFF && c.toNat != 0xD7 && c.toNat != 0xF7

/-- A name starts with an ASCII letter, an underscore or a Latin-1 letter. -/
def isNameStart (c : Char) : Bool :=
  c.isAlpha || c == '_' || isLatinLetter c

/-- A name continues with the characters that may start it, and digits. -/
def isNameChar (c : Char) : Bool :=
  isNameStart c || c.isDigit

/-- Hexadecimal digits of either case. -/
def isHexDigit (c : Char) : Bool :=
  c.isDigit || ('a' ≤ c && c ≤ 'f') || ('A' ≤ c && c ≤ 'F')

/-- The number of leading characters that satisfy `p`. -/
def countWhile (p : Char → Bool) : List Char → Nat
  | [] => 0
  | c :: cs => if p c then countWhile p cs + 1 else 0

/-- The length of a block comment's remainder after its opening `/*`: up to and including the
first `*/`, or the whole rest of the text when it is never closed. -/
def commentTailLength : List Char → Nat
  | [] => 0
  | '*' :: '/' :: _ => 2
  | _ :: cs => commentTailLength cs + 1

/-- The length of an exponent at the front of the text (`e`, an optional sign, and at least
one digit), or zero when there is none. -/
def exponentLength : List Char → Nat
  | c :: rest =>
    if c == 'e' || c == 'E' then
      let sign := match rest with
        | s :: _ => if s == '+' || s == '-' then 1 else 0
        | [] => 0
      let digits := countWhile Char.isDigit (rest.drop sign)
      if digits == 0 then 0 else 1 + sign + digits
    else 0
  | [] => 0

/-- The length of a hexadecimal number (`0x` and at least one hex digit), or zero. -/
def hexLength : List Char → Nat
  | '0' :: x :: rest =>
    if x == 'x' || x == 'X' then
      let digits := countWhile isHexDigit rest
      if digits == 0 then 0 else 2 + digits
    else 0
  | _ => 0

/-- The length of the longest number at the front of a text that starts with a digit: integer
digits, then either a fraction of at least one digit and an optional exponent, or a bare dot
and an optional exponent, or only an optional exponent; or a hexadecimal number. -/
def numberLength (cs : List Char) : Nat :=
  let whole := countWhile Char.isDigit cs
  let rest := cs.drop whole
  let decimal := match rest with
    | '.' :: afterDot =>
      let fraction := countWhile Char.isDigit afterDot
      if fraction == 0 then whole + 1 + exponentLength afterDot
      else whole + 1 + fraction + exponentLength (afterDot.drop fraction)
    | _ => whole + exponentLength rest
  max decimal (hexLength cs)

/-- The length of a malformed number at the front of the text: digits, an optional fraction,
an exponent, and then a dot with any digits after it; zero when the text does not start so. -/
def malformedLength (cs : List Char) : Nat :=
  let whole := countWhile Char.isDigit cs
  let rest := cs.drop whole
  let (fraction, afterFraction) := match rest with
    | '.' :: afterDot =>
      let digits := countWhile Char.isDigit afterDot
      (1 + digits, afterDot.drop digits)
    | _ => (0, rest)
  let exponent := exponentLength afterFraction
  if whole == 0 || exponent == 0 then 0
  else match afterFraction.drop exponent with
    | '.' :: tail => whole + fraction + exponent + 1 + countWhile Char.isDigit tail
    | _ => 0

/-- Reads a quoted text after its opening quote. Gives the number of characters read and
whether a closing quote ended them (it is counted). A backslash escapes the next character
unless that is a line break; a backslash that escapes nothing ends an unterminated text. -/
def quotedLength : List Char → Nat × Bool
  | [] => (0, false)
  | '"' :: _ => (1, true)
  | '\\' :: c :: cs =>
    if c == '\n' then (0, false)
    else
      let (n, closed) := quotedLength cs
      (n + 2, closed)
  | '\\' :: [] => (0, false)
  | _ :: cs =>
    let (n, closed) := quotedLength cs
    (n + 1, closed)

/-- The punctuators with their kinds, longest first, so that a shorter one never hides a longer
one that starts the same way. -/
def punctuators : List (List Char × TokenKind) :=
  [(['<', '<', '='], .lessLessEqual), (['>', '>', '='], .greaterGreaterEqual),
    (['+', '='], .plusEqual), (['-', '='], .minusEqual), (['*', '='], .starEqual),
    (['%', '='], .percentEqual), (['^', '='], .caretEqual), (['&', '='], .ampEqual),
    (['|', '='], .pipeEqual), (['=', '='], .equalEqual), (['!', '='], .bangEqual),
    (['<', '='], .lessEqual), (['>', '='], .greaterEqual), ([':', ':'], .colonColon),
    (['='], .equal), (['*'], .star), (['&'], .amp), (['<'], .less), (['>'], .greater),
    (['-'], .minus), (['('], .leftParen), ([')'], .rightParen), (['{'], .leftBrace),
    (['}'], .rightBrace), (['['], .leftBracket), ([']'], .rightBracket), ([';'], .semicolon),
    ([':'], .colon), ([','], .comma), (['#'], .hash)]

/-- The punctuation token at the front of the text, longest first, with its length. -/
def punctuation (cs : List Char) : Option (TokenKind × Nat) :=
  (punctuators.find? fun p => p.1.isPrefixOf cs).map fun p => (p.2, p.1.length)

/-- The kind of a name-shaped word: a marker or keyword when it is spelled exactly so, a plain
name otherwise. -/
def wordKind (word : List Char) : TokenKind :=
  match String.ofList word with
  | "GPROPERTY" => .propertyMarker
  | "GCLASS" => .classMarker
  | "GSTRUCT" => .structMarker
  | "GMETHOD" => .methodMarker
  | "GENUM" => .enumMarker
  | "GENERATED_BODY" => .generatedBody
  | "class" => .kwClass
  | "struct" => .kwStruct
  | "enum" => .kwEnum
  | "const" => .kwConst
  | "auto" => .kwAuto
  | _ => .identifier

/-- The multiplication and division signs, which stand among the Latin-1 letters but end a
word; a word they follow directly reads as a plain name. -/
def isLatinSign (c : Char) : Bool := c.toNat == 0xD7 || c.toNat == 0xF7

/-- The kind of the word `word` when the text after it is `after`: a sign right after it
makes it a plain name, and otherwise its spelling decides. -/
def wordKindBefore (word : List Char) (after : List Char) : TokenKind :=
  match after with
  | c :: _ => if isLatinSign c then .identifier else wordKind word
  | [] => wordKind word

/-- What one scanning step finds at the front of the text. -/
inductive Piece where
  /-- A token of the given kind. -/
  | token (kind : TokenKind)
  /-- Blanks or a comment, skipped. -/
  | gap
  /-- A number whose exponent is followed by a fraction, reported and skipped. -/
  | malformedNumber
  /-- A quoted text that is never closed, reported and skipped. -/
  | unterminatedString
  /-- A character that starts nothing, skipped. -/
  | stray
  deriving DecidableEq, Repr

/-- Reads one piece starting with the character `c`, followed by the text `rest`. Gives the
piece and how many characters of `rest` belong to it besides `c`. -/
def step (c : Char) (rest : List Char) : Piece × Nat :=
  if isBlank c then (.gap, countWhile isBlank rest)
  else if c == '/' then
    match rest with
    | '/' :: tail => (.gap, 1 + countWhile (· != '\n') tail)
    | '*' :: tail => (.gap, 1 + commentTailLength tail)
    | '=' :: _ => (.token .slashEqual, 1)
    | _ => (.stray, 0)
  else if isNameStart c then
    let more := countWhile isNameChar rest
    (.token (wordKindBefore (c :: rest.take more) (rest.drop more)), more)
  else if c.isDigit then
    let malformed := malformedLength (c :: rest)
    let number := numberLength (c :: rest)
    if number < malformed then (.malformedNumber, malformed - 1)
    else (.token .number, number - 1)
  else if c == '"' then
    let (n, closed) := quotedLength rest
    (if closed then .token .string else .unterminatedString, n)
  else
    match punctuation (c :: rest) with
    | some (kind, n) => (.token kind, n - 1)
    | none => (.stray, 0)

end TypeReflection.Scan
