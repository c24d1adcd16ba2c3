/-!
# Paths

A path is a text naming a file, read as a sequence of parts separated by `/`. A leading `/` is
the root; runs of separators count as one, a trailing one is ignored, and a `.` piece is
dropped except as the first part of a relative path. So `a//b/` and `a/./b` have the same
parts as `a/b`, while `./a` keeps its leading `.`.

Paths are compared part by part: `startsWith` and `stripPrefix?` never match half a name, so
`srcx/a.h` does not start with `src`. `join` puts a separator between a base and a relative
path and lets an absolute path replace the base; `parent?` drops the last part and keeps the
text before it. A file name splits at its last dot into a stem and an extension, except that a
name whose only dot is its first character has no extension.
-/

set_option autoImplicit false

namespace TypeReflection

/-- A path, held as its text. -/
structure Path where
  text : String
  deriving DecidableEq, Repr, Inhabited

instance : ToString Path := ⟨Path.text⟩

/-- One part of a path. -/
inductive PathPart where
  /-- The leading `/` of an absolute path. -/
  | root
  /-- The leading `.` of a relative path. -/
  | current
  /-- A `..` piece. -/
  | up
  /-- Any other piece. -/
  | name (text : String)
  deriving DecidableEq, Repr

namespace PathPart

/-- The text of a part. -/
def text : PathPart → String
  | .root => "/"
  | .current => "."
  | .up => ".."
  | .name s => s

/-- The part that a piece between separators stands for: an empty piece and a `.` stand for
none. -/
def ofPiece (s : String) : Option PathPart :=
  if s.isEmpty || s == "." then none
  else if s == ".." then some .up
  else some (.name s)

end PathPart

namespace Path

/-- Whether the path starts at the root. -/
def isAbsolute (p : Path) : Bool := p.text.startsWith "/"

/-- Whether a relative path starts with a `.` part: it is `.` or starts with `./`. -/
def startsAtCurrent (p : Path) : Bool := !p.isAbsolute && (p.text == "." || p.text.startsWith "./")

/-- The text of the part before the pieces: `/`, `.` or nothing. -/
def leadText (p : Path) : String :=
  if p.isAbsolute then "/" else if p.startsAtCurrent then "." else ""

/-- The pieces of a text between its separators, empty ones included: `a//b/` has four pieces,
`a`, an empty one, `b` and another empty one. -/
def splitPieces (text : String) : List String := (text.toList.splitOn '/').map String.ofList

/-- The parts of a path, in order. -/
def parts (p : Path) : List PathPart :=
  let lead : List PathPart :=
    if p.isAbsolute then [.root] else if p.startsAtCurrent then [.current] else []
  lead ++ (splitPieces p.text).filterMap PathPart.ofPiece

/-- Whether the path has no parts at all. -/
def isEmpty (p : Path) : Bool := p.parts.isEmpty

/-- The parts written back with single separators. -/
def partsText (parts : List PathPart) : String := "/".intercalate (parts.map PathPart.text)

/-- `base` followed by `p`: an absolute `p` replaces the base, and a separator goes between
them unless the base is empty or already ends with one. -/
def join (base p : Path) : Path :=
  if p.isAbsolute then p
  else if base.text.isEmpty || base.text.endsWith "/" then ⟨base.text ++ p.text⟩
  else ⟨base.text ++ "/" ++ p.text⟩

/-- Drops trailing pieces that stand for no part. -/
def dropEmptyTail (pieces : List String) : List String :=
  (pieces.reverse.dropWhile fun s => s.isEmpty || s == ".").reverse

/-- The path without its last part, as the text before that part. The root and the empty path
have no parent; the parent of a lone `.` is the empty path. -/
def parent? (p : Path) : Option Path :=
  let lead := p.leadText
  let body := String.ofList (p.text.toList.drop lead.length)
  let pieces := dropEmptyTail (splitPieces body)
  if pieces.isEmpty then
    if lead == "." then some ⟨""⟩ else none
  else some ⟨lead ++ "/".intercalate (dropEmptyTail pieces.dropLast)⟩

/-- The last part, if it is a name. -/
def fileName? (p : Path) : Option String :=
  match p.parts.getLast? with
  | some (.name s) => some s
  | _ => none

/-- Splits a file name at its last dot into the stem before it and the extension after it. A
name with no dot, a name whose only dot is its first character, and `..` have no extension. -/
def splitExtension (name : String) : String × Option String :=
  let cs := name.toList
  let after := (cs.reverse.takeWhile (· != '.')).reverse
  if name == ".." || after.length == cs.length then (name, none)
  else
    let before := cs.take (cs.length - after.length - 1)
    if before.isEmpty then (name, none) else (String.ofList before, some (String.ofList after))

/-- The file name without its extension. -/
def stem? (p : Path) : Option String := p.fileName?.map fun n => (splitExtension n).1

/-- The extension of the file name. -/
def extension? (p : Path) : Option String := p.fileName?.bind fun n => (splitExtension n).2

/-- Whether the parts of `base` begin the parts of `p`. -/
def startsWith (p base : Path) : Bool := base.parts.isPrefixOf p.parts

/-- The parts of `p` after those of `base`, when `p` starts with `base`. -/
def stripPrefix? (p base : Path) : Option (List PathPart) :=
  if p.startsWith base then some (p.parts.drop base.parts.length) else none

end Path

end TypeReflection
