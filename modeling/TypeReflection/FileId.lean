import TypeReflection.Text.Search
import TypeReflection.Text.WhiteSpace

/-!
# File ids

Every generated header is stamped with a file id: 16 random bytes written as 32 lowercase hex
digits in groups of 8, 4, 4, 4 and 12, joined by underscores, so that the id can be pasted into
C identifiers. `FileId.render` writes bytes so; `FileId.parse` accepts exactly the texts so
written, and otherwise names the first fault: a length other than 36 characters, or the first
character that is out of place. A generated header records its id on a line
`#define CURRENT_FILE_ID <id>`, from which `FileId.fromGenerated` reads it back.
-/

set_option autoImplicit false

namespace TypeReflection

/-- A file id, held as its text. -/
structure FileId where
  text : String
  deriving DecidableEq, Repr, Inhabited

/-- Why a text is not a file id. -/
inductive FileIdError where
  /-- The text does not have 36 characters; it has `found`. -/
  | invalidLength (found : Nat)
  /-- The character `c` at character position `position` is out of place. -/
  | invalidCharacter (c : Char) (position : Nat)
  /-- A generated header has no line recording its id. -/
  | notRecorded
  deriving DecidableEq, Repr

namespace FileId

/-- The number of characters of a file id. -/
def length : Nat := 36

/-- The lengths of the groups of hex digits, in characters. -/
def groups : List Nat := [8, 4, 4, 4, 12]

/-- The positions of the underscores that follow runs of the given lengths, the first run
starting at `offset`. -/
def separatorsAfter (offset : Nat) : List Nat → List Nat
  | [] => []
  | len :: lens => (offset + len) :: separatorsAfter (offset + len + 1) lens

/-- The character positions of the underscores: one after every group but the last. -/
def separatorPositions : List Nat := separatorsAfter 0 groups.dropLast

/-- What precedes the id on the line that records it in a generated header. -/
def definePrefix : String := "#define CURRENT_FILE_ID "

/-- Lowercase hex digits. -/
def isHexDigit (c : Char) : Bool := c.isDigit || ('a' ≤ c && c ≤ 'f')

/-- The lowercase hex digit of a value below 16. -/
def hexDigit (n : Nat) : Char :=
  if n < 10 then Char.ofNat ('0'.toNat + n) else Char.ofNat ('a'.toNat + n - 10)

/-- The two hex digits of a byte. -/
def byteDigits (b : UInt8) : List Char := [hexDigit (b.toNat / 16), hexDigit (b.toNat % 16)]

/-- The digits cut into runs of the given lengths, in order. -/
def runs : List Nat → List Char → List (List Char)
  | [], _ => []
  | len :: lens, digits => digits.take len :: runs lens (digits.drop len)

/-- Puts the underscores into 32 hex digits: the groups, joined by underscores. -/
def group (digits : List Char) : List Char := ['_'].intercalate (runs groups digits)

/-- The text of the id made of 16 bytes. -/
def render (bytes : List UInt8) : String := String.ofList (group (bytes.flatMap byteDigits))

/-- The id made of 16 bytes, in order. -/
def ofBytes (bytes : List UInt8) : FileId := ⟨render bytes⟩

/-- The first character out of place, from position `i` on. -/
def firstFault : List Char → Nat → Option (Char × Nat)
  | [], _ => none
  | c :: cs, i =>
    let ok := if separatorPositions.contains i then c == '_' else isHexDigit c
    if ok then firstFault cs (i + 1) else some (c, i)

/-- Reads a file id. -/
def parse (text : String) : Except FileIdError FileId :=
  let cs := text.toList
  if cs.length != length then .error (.invalidLength cs.length)
  else match firstFault cs 0 with
    | some (c, i) => .error (.invalidCharacter c i)
    | none => .ok ⟨text⟩

/-- Reads the id that a generated header records: the text after the first
`#define CURRENT_FILE_ID ` up to the next white space. -/
def fromGenerated (contents : String) : Except FileIdError FileId :=
  match Text.afterFirst definePrefix.toList contents.toList with
  | none => .error .notRecorded
  | some rest => parse (String.ofList (rest.takeWhile (fun c => !Text.isWhiteSpace c)))

end FileId

/-- The report of a file id fault. -/
def FileIdError.message : FileIdError → String
  | .invalidLength found => s!"file id must be {FileId.length} characters, got {found}"
  | .invalidCharacter c position => s!"invalid character '{c}' at position {position} in file id"
  | .notRecorded => "no '" ++ FileId.definePrefix ++ "' line found"

end TypeReflection
