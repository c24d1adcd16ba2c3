import TypeReflection.Token.Spelling

/-!
# Forward and backward scans over tokens

The member parsers find the end of a declaration before reading it. These scans walk a list of
tokens, counting indices from a given start, and stop at the token they look for or are cut
short by one that may not appear inside a declaration (the end of input, or a reflection
marker, which always starts a new declaration). `matchingOpen` walks backwards from a closing
bracket to the bracket that opens it.
-/

set_option autoImplicit false

namespace TypeReflection.Scan

/-- Where a forward scan stopped: at the token it looked for, or cut short, with the index of
the token it stopped on in either case. -/
inductive Stop where
  | found (index : Nat)
  | cut (index : Nat)
  deriving DecidableEq, Repr

/-- Scans for the first token of kind `target`; a token of a kind in `stops` cuts the scan
short. The list is read as starting at index `i`, and its end counts as the end of input. -/
def scanTo (target : TokenKind) (stops : TokenKind → Bool) : List Token → Nat → Stop
  | [], i => .cut i
  | t :: ts, i =>
    if t.kind == target then .found i
    else if stops t.kind then .cut i
    else scanTo target stops ts (i + 1)

/-- Scans a data member up to its `;`, cut short by the end of input or a marker. Also gives
the index of the first `=` outside angle brackets, where the initializer starts. -/
def scanProperty : List Token → Nat → Nat → Option Nat → Stop × Option Nat
  | [], i, _, boundary => (.cut i, boundary)
  | t :: ts, i, depth, boundary =>
    match t.kind with
    | .semicolon => (.found i, boundary)
    | .eof => (.cut i, boundary)
    | .less => scanProperty ts (i + 1) (depth + 1) boundary
    | .greater => scanProperty ts (i + 1) (depth - 1) boundary
    | .equal =>
      scanProperty ts (i + 1) depth (if depth == 0 && boundary.isNone then some i else boundary)
    | k => if k.isMarker then (.cut i, boundary) else scanProperty ts (i + 1) depth boundary

/-- Scans a member function up to the first `;`, `{` or `=` outside parentheses, cut short by
the end of input or a marker. -/
def scanMethod : List Token → Nat → Nat → Stop
  | [], i, _ => .cut i
  | t :: ts, i, depth =>
    match t.kind with
    | .semicolon | .leftBrace | .equal =>
      if depth == 0 then .found i else scanMethod ts (i + 1) depth
    | .eof => .cut i
    | .leftParen => scanMethod ts (i + 1) (depth + 1)
    | .rightParen => scanMethod ts (i + 1) (depth - 1)
    | k => if k.isMarker then .cut i else scanMethod ts (i + 1) depth

/-- Scans from a `{` (at depth zero before it) to the `}` that closes it, cut short by the end
of input. -/
def scanBraces : List Token → Nat → Nat → Stop
  | [], i, _ => .cut i
  | t :: ts, i, depth =>
    match t.kind with
    | .leftBrace => scanBraces ts (i + 1) (depth + 1)
    | .rightBrace => if depth - 1 == 0 then .found i else scanBraces ts (i + 1) (depth - 1)
    | .eof => .cut i
    | _ => scanBraces ts (i + 1) depth

/-- Index of the token of kind `openKind` that matches the token of kind `closeKind` at index
`i`, walking backwards with `depth` closers still open. -/
def matchingOpen (tokens : Array Token) (openKind closeKind : TokenKind) (i depth : Nat) :
    Option Nat :=
  let kind := tokens[i]?.map (·.kind)
  let depth :=
    if kind == some closeKind then depth + 1
    else if kind == some openKind then depth - 1
    else depth
  if kind == some openKind && depth == 0 then some i
  else
    match i with
    | 0 => none
    | j + 1 => matchingOpen tokens openKind closeKind j depth

end TypeReflection.Scan
