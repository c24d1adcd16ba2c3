import TypeReflection.Path

/-!
# Settings files

A settings file is a TOML document that may set `project`, `output`, `prelude` (strings),
`scan` (an array of strings) and `force` (a boolean), each at most once, at the top level:

```toml
project = "Game"
output = "Intermediate/Generated"
scan = ["Source", "Plugins/Source"]
force = false
```

Any other key, a table, a dotted key, a value of another type or a second assignment of a key
makes the file invalid, and so does every TOML syntax error. The reader therefore knows of TOML
only what a valid settings file can hold: comments, bare and quoted keys, the four kinds of
strings with their escapes and line rules, booleans, and arrays that may span lines and end
with a comma. Anything else it meets is an error, as it would be in a full reader followed by
the check of keys and types.
-/

set_option autoImplicit false

namespace TypeReflection

/-- Why a settings file was refused. -/
inductive TomlError where
  /-- The text is not TOML, or uses TOML that no settings file can hold. -/
  | unexpected (offset : Nat) (expected : String)
  /-- A key that settings files do not have. -/
  | unknownKey (key : String)
  /-- A key set twice. -/
  | duplicateKey (key : String)
  /-- A value of the wrong type for its key. -/
  | wrongType (key : String) (expected : String)
  deriving DecidableEq, Repr

/-- A description of the fault. -/
def TomlError.message : TomlError → String
  | .unexpected offset expected => s!"invalid TOML at offset {offset}: expected {expected}"
  | .unknownKey key => s!"unknown field `{key}`, expected one of `project`, `output`, `scan`, `force`, `prelude`"
  | .duplicateKey key => s!"duplicate key `{key}`"
  | .wrongType key expected => s!"invalid type for `{key}`: expected {expected}"

/-- The values a settings file can hold. -/
inductive TomlValue where
  | text (s : String)
  | bool (b : Bool)
  | array (items : List TomlValue)
  deriving Repr

/-- What a settings file sets; unset keys are `none` or empty. -/
structure SettingsFile where
  project : Option String := none
  output : Option Path := none
  scan : List Path := []
  force : Option Bool := none
  prelude : Option String := none
  deriving DecidableEq, Repr, Inhabited

namespace Toml

/-- Reading state: the text left and the offset of its first character. -/
structure Cursor where
  rest : List Char
  offset : Nat

/-- A reader of TOML text. -/
abbrev Reader := StateT Cursor (Except TomlError)

/-- The next character, if any. -/
def peek : Reader (Option Char) := return (← get).rest.head?

/-- The character after the next one, if any. -/
def peekSecond : Reader (Option Char) := return (← get).rest.tail.head?

/-- Passes over `n` characters. -/
def skip (n : Nat) : Reader Unit :=
  modify fun c => ⟨c.rest.drop n, c.offset + min n c.rest.length⟩

/-- Fails where the reader stands. -/
def fail {α : Type} (expected : String) : Reader α := do
  throw (.unexpected (← get).offset expected)

/-- Whether the text left starts with `s`. -/
def startsWith (s : List Char) : Reader Bool := return s.isPrefixOf (← get).rest

/-- Characters no TOML text may hold outside a string's escapes: controls other than tab. -/
def isControl (c : Char) : Bool := (c.toNat < 0x20 && c != '\t') || c.toNat == 0x7F

/-- Whether `c` may appear in a bare key. -/
def isBareKeyChar (c : Char) : Bool :=
  ('A' ≤ c && c ≤ 'Z') || ('a' ≤ c && c ≤ 'z') || ('0' ≤ c && c ≤ '9') || c == '_' || c == '-'

/-- Passes over spaces and tabs. -/
def skipBlank : Reader Unit :=
  modify fun c =>
    let n := (c.rest.takeWhile fun ch => ch == ' ' || ch == '\t').length
    ⟨c.rest.drop n, c.offset + n⟩

/-- Passes over a comment, if one starts here, up to the end of its line. -/
def skipComment : Reader Unit := do
  if (← peek) == some '#' then
    let body := ((← get).rest.drop 1).takeWhile (· != '\n')
    -- a carriage return may only end the line
    let body := if body.getLast? == some '\r' then body.dropLast else body
    match body.find? isControl with
    | some _ => fail "a comment without control characters"
    | none => skip (body.length + 1)

/-- Reads a line break, `\n` or `\r\n`, if one is next; tells whether it did. -/
def lineBreak : Reader Bool := do
  if ← startsWith ['\n'] then skip 1; return true
  else if ← startsWith ['\r', '\n'] then skip 2; return true
  else return false

/-- Passes over blanks, comments and line breaks, as between the items of an array. -/
def skipSpace : Nat → Reader Unit
  | 0 => pure ()
  | fuel + 1 => do
    let before := (← get).offset
    skipBlank
    skipComment
    let _ ← lineBreak
    if (← get).offset != before then skipSpace fuel

/-- The value of `n` hex digits, if they are there. -/
def hexValue (cs : List Char) : Option Nat :=
  cs.foldl (fun acc c => acc.bind fun v =>
    if '0' ≤ c && c ≤ '9' then some (16 * v + (c.toNat - '0'.toNat))
    else if 'a' ≤ c && c ≤ 'f' then some (16 * v + (c.toNat - 'a'.toNat + 10))
    else if 'A' ≤ c && c ≤ 'F' then some (16 * v + (c.toNat - 'A'.toNat + 10))
    else none) (some 0)

/-- Reads an escape after its backslash. -/
def escape : Reader Char := do
  match ← peek with
  | some 'b' => skip 1; return '\x08'
  | some 't' => skip 1; return '\t'
  | some 'n' => skip 1; return '\n'
  | some 'f' => skip 1; return '\x0c'
  | some 'r' => skip 1; return '\r'
  | some '"' => skip 1; return '"'
  | some '\\' => skip 1; return '\\'
  | some 'u' => unicode 4
  | some 'U' => unicode 8
  | _ => fail "an escape"
where
  /-- Reads `n` hex digits naming a Unicode scalar value. -/
  unicode (n : Nat) : Reader Char := do
    let digits := ((← get).rest.drop 1).take n
    match hexValue digits with
    | some v =>
      if digits.length == n && (v < 0xD800 || (0xDFFF < v && v ≤ 0x10FFFF)) then
        skip (n + 1); return Char.ofNat v
      else fail "a Unicode scalar value"
    | none => fail "hex digits"

/-- Reads the rest of a one-line string after its opening `"`. -/
def basicString : Nat → List Char → Reader String
  | 0, _ => fail "'\"'"
  | fuel + 1, acc => do
    match ← peek with
    | some '"' => skip 1; return String.ofList acc.reverse
    | some '\\' => skip 1; basicString fuel ((← escape) :: acc)
    | some c => if isControl c then fail "'\"'" else do skip 1; basicString fuel (c :: acc)
    | none => fail "'\"'"

/-- Reads the rest of a one-line literal string after its opening quote. -/
def literalString : Nat → List Char → Reader String
  | 0, _ => fail "a closing quote"
  | fuel + 1, acc => do
    match ← peek with
    | some '\'' => skip 1; return String.ofList acc.reverse
    | some c => if isControl c then fail "a closing quote" else do skip 1; literalString fuel (c :: acc)
    | none => fail "a closing quote"

/-- The number of times `q` repeats at the start of the text left. -/
def runOf (q : Char) : Reader Nat := return ((← get).rest.takeWhile (· == q)).length

/-- Passes over white space and line breaks after a line-ending backslash. -/
def trimAfterBackslash : Nat → Reader Unit
  | 0 => pure ()
  | fuel + 1 => do
    match ← peek with
    | some ' ' | some '\t' | some '\n' => skip 1; trimAfterBackslash fuel
    | some '\r' => if (← peekSecond) == some '\n' then do skip 2; trimAfterBackslash fuel else pure ()
    | _ => pure ()

/-- Reads the rest of a multi-line string after its three opening quotes `q`; `basic` tells
whether escapes count. Up to two quotes may stand just before the closing three. -/
def multiLine (q : Char) (basic : Bool) : Nat → List Char → Reader String
  | 0, _ => fail "a closing delimiter"
  | fuel + 1, acc => do
    let n ← runOf q
    if 3 ≤ n then
      if n ≤ 5 then do
        skip n
        return String.ofList (acc.reverse ++ List.replicate (n - 3) q)
      else fail "at most five quotes"
    else
      match ← peek with
      | none => fail "a closing delimiter"
      | some '\\' =>
        if basic then do
          skip 1
          -- a backslash that ends a line joins it to the next non-blank text
          let rest := (← get).rest
          let blanks := rest.takeWhile fun ch => ch == ' ' || ch == '\t'
          let after := rest.drop blanks.length
          if after.head? == some '\n' || ['\r', '\n'].isPrefixOf after then do
            trimAfterBackslash (rest.length + 1)
            multiLine q basic fuel acc
          else multiLine q basic fuel ((← escape) :: acc)
        else do skip 1; multiLine q basic fuel ('\\' :: acc)
      | some c =>
        if ← lineBreak then multiLine q basic fuel ('\n' :: acc)
        else if isControl c then fail "a closing delimiter"
        else do skip 1; multiLine q basic fuel (c :: acc)

/-- Reads a string of any of the four kinds, starting at its opening quote. -/
def string : Reader String := do
  let fuel := (← get).rest.length + 1
  if ← startsWith ['"', '"', '"'] then
    skip 3
    let _ ← lineBreak
    multiLine '"' true fuel []
  else if ← startsWith ['\'', '\'', '\''] then
    skip 3
    let _ ← lineBreak
    multiLine '\'' false fuel []
  else if ← startsWith ['"'] then do skip 1; basicString fuel []
  else do skip 1; literalString fuel []

/-- Reads a value; `fuel` bounds the nesting of arrays. -/
def value : Nat → Reader TomlValue
  | 0 => fail "a value"
  | fuel + 1 => do
    match ← peek with
    | some '"' | some '\'' => return .text (← string)
    | some '[' =>
      skip 1
      items fuel (fuel + 1) []
    | _ =>
      if ← startsWith "true".toList then do skip 4; return .bool true
      else if ← startsWith "false".toList then do skip 5; return .bool false
      else fail "a string, a boolean or an array"
where
  /-- Reads the items of an array after its `[` up to and including its `]`. -/
  items (depth : Nat) : Nat → List TomlValue → Reader TomlValue
    | 0, _ => fail "']'"
    | more + 1, acc => do
      skipSpace ((← get).rest.length + 1)
      if (← peek) == some ']' then do skip 1; return .array acc.reverse
      let v ← value depth
      skipSpace ((← get).rest.length + 1)
      match ← peek with
      | some ',' => skip 1; items depth more (v :: acc)
      | some ']' => skip 1; return .array (v :: acc).reverse
      | _ => fail "',' or ']'"

/-- Reads a key: bare or quoted, and not dotted. -/
def key : Reader String := do
  match ← peek with
  | some '"' | some '\'' =>
    if (← startsWith ['"', '"', '"']) || (← startsWith ['\'', '\'', '\'']) then fail "a key"
    else string
  | _ =>
    let name := (← get).rest.takeWhile isBareKeyChar
    if name.isEmpty then fail "a key"
    skip name.length
    return String.ofList name

/-- Sets `k` to `v` in the settings read so far. -/
def assign (file : SettingsFile) (seen : List String) (k : String) (v : TomlValue) :
    Except TomlError SettingsFile := do
  if seen.contains k then throw (.duplicateKey k)
  match k, v with
  | "project", .text s => return { file with project := some s }
  | "output", .text s => return { file with output := some ⟨s⟩ }
  | "prelude", .text s => return { file with prelude := some s }
  | "force", .bool b => return { file with force := some b }
  | "scan", .array items =>
    let paths := items.filterMap fun
      | .text s => some (Path.mk s)
      | _ => none
    if paths.length == items.length then return { file with scan := paths }
    else throw (.wrongType k "a string")
  | "project", _ | "output", _ | "prelude", _ => throw (.wrongType k "a string")
  | "force", _ => throw (.wrongType k "a boolean")
  | "scan", _ => throw (.wrongType k "a sequence")
  | _, _ => throw (.unknownKey k)

/-- Reads the lines of a document, one assignment, comment or blank line at a time. -/
def lines : Nat → SettingsFile → List String → Reader SettingsFile
  | 0, file, _ => return file
  | fuel + 1, file, seen => do
    skipBlank
    match ← peek with
    | none => return file
    | some '#' =>
      skipComment
      endOfLine
      lines fuel file seen
    | some '\n' | some '\r' =>
      endOfLine
      lines fuel file seen
    | some '[' => fail "a key (tables are not settings)"
    | some _ =>
      let k ← key
      skipBlank
      if (← peek) != some '=' then fail "'='"
      skip 1
      skipBlank
      let v ← value ((← get).rest.length + 1)
      let file ← match assign file seen k v with
        | .ok f => pure f
        | .error e => throw e
      skipBlank
      skipComment
      endOfLine
      lines fuel file (k :: seen)
where
  /-- Expects a line break or the end of the text. -/
  endOfLine : Reader Unit := do
    if (← peek).isNone then return
    if !(← lineBreak) then fail "a new line"

end Toml

/-- Reads a settings file from its text. -/
def SettingsFile.parse (text : String) : Except TomlError SettingsFile :=
  let cs := text.toList
  let cs := if cs.head? == some '\uFEFF' then cs.drop 1 else cs
  (Toml.lines (cs.length + 1) {} [] |>.run' ⟨cs, 0⟩)

end TypeReflection
