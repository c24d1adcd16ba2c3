import TypeReflection.Path
import TypeReflection.FileId
import TypeReflection.Text.Utf8

/-!
# The file system, as the generator sees it

The generator reads headers, writes generated files and stamps them with fresh file ids. It
does so through two capabilities of its monad: `MonadDisk`, a handful of file operations that
each succeed or name an `IoError`, and `MonadFileIds`, a source of fresh ids. A program runs
them against the real file system; `TypeReflection.Disk.Memory` gives a file system held in
memory, on which a run is a pure function.

Composite operations are written once, over the capabilities: `createDirAll` creates missing
parents from the top down and accepts a directory that is already there, `readText` insists on
UTF-8, and `readLossy` replaces what is not UTF-8.
-/

set_option autoImplicit false

namespace TypeReflection

/-- Why a file operation failed. -/
inductive IoError where
  /-- A part of the path does not exist. -/
  | notFound
  /-- The path to be created already names something. -/
  | alreadyExists
  /-- A part of the path that should be a directory is not one. -/
  | notADirectory
  /-- The path names a directory where a file is needed. -/
  | isADirectory
  /-- The file's contents are not UTF-8. -/
  | invalidUtf8
  /-- Another failure reported by the operating system, with its number. -/
  | os (code : Nat) (description : String)
  /-- A failure described only in words. -/
  | other (description : String)
  deriving DecidableEq, Repr

/-- The report of a failed file operation, in the operating system's words. -/
def IoError.message : IoError → String
  | .notFound => "No such file or directory (os error 2)"
  | .alreadyExists => "File exists (os error 17)"
  | .notADirectory => "Not a directory (os error 20)"
  | .isADirectory => "Is a directory (os error 21)"
  | .invalidUtf8 => "stream did not contain valid UTF-8"
  | .os code description => s!"{description} (os error {code})"
  | .other description => description

/-- What a path names. -/
inductive EntryKind where
  | file
  | directory
  /-- A link, device or anything else that is neither a plain file nor a directory. -/
  | other
  deriving DecidableEq, Repr

/-- What is known of a file without reading it: its kind and when it was last modified, in
nanoseconds since the epoch. -/
structure Metadata where
  kind : EntryKind
  modified : Int
  deriving DecidableEq, Repr

/-- An entry of a directory: its name and kind, a link counting as a link. -/
structure DirEntry where
  name : String
  kind : EntryKind
  deriving DecidableEq, Repr

namespace DirEntry

/-- Puts `e` before the first entry whose name is not smaller than its own. -/
def insertByName (e : DirEntry) : List DirEntry → List DirEntry
  | [] => [e]
  | f :: fs => if e.name ≤ f.name then e :: f :: fs else f :: insertByName e fs

/-- The entries in order of their names; entries of equal names keep their order. -/
def sortByName (es : List DirEntry) : List DirEntry := es.foldr insertByName []

end DirEntry

/-- The file operations a run needs. Relative paths are taken from the working directory, and
links are followed except in `readDir`. -/
class MonadDisk (m : Type → Type) where
  /-- Creates one directory, whose parent must exist. -/
  createDir : Path → m (Except IoError Unit)
  /-- The absolute path of what `p` names, without `.`, `..` or links. -/
  canonicalize : Path → m (Except IoError Path)
  /-- What `p` names. -/
  metadata : Path → m (Except IoError Metadata)
  /-- The entries of a directory, in no particular order. -/
  readDir : Path → m (Except IoError (List DirEntry))
  /-- The bytes of a file. -/
  readBytes : Path → m (Except IoError ByteArray)
  /-- Replaces the contents of a file, creating it if needed. -/
  writeText : Path → String → m (Except IoError Unit)

/-- A source of file ids that have never been given before. -/
class MonadFileIds (m : Type → Type) where
  freshId : m FileId

namespace Disk

variable {m : Type → Type} [Monad m] [MonadDisk m]

/-- Whether `p` names anything. -/
def pathExists (p : Path) : m Bool := do
  return (← MonadDisk.metadata p) matches .ok _

/-- Whether `p` names a directory. -/
def isDirectory (p : Path) : m Bool := do
  return match ← MonadDisk.metadata p with
    | .ok md => md.kind == .directory
    | .error _ => false

/-- Creates `p` when it is not a directory yet, after its missing parents. Each step goes to a
parent with fewer parts, so `fuel` of one more than the number of parts suffices. -/
def createDirAllWith : Nat → Path → m (Except IoError Unit)
  | 0, _ => pure (.error (.other "failed to create whole tree"))
  | fuel + 1, p => do
    if p.isEmpty then return .ok ()
    match ← MonadDisk.createDir p with
    | .ok () => return .ok ()
    | .error .notFound =>
      match p.parent? with
      | none => return .error (.other "failed to create whole tree")
      | some q =>
        match ← createDirAllWith fuel q with
        | .error e => return .error e
        | .ok () =>
          match ← MonadDisk.createDir p with
          | .ok () => return .ok ()
          | .error e => return if ← isDirectory p then .ok () else .error e
    | .error e => return if ← isDirectory p then .ok () else .error e

/-- Creates the directory `p` and its missing parents; a directory already there is fine. -/
def createDirAll (p : Path) : m (Except IoError Unit) := createDirAllWith (p.parts.length + 1) p

/-- The contents of a file, which must be UTF-8. -/
def readText (p : Path) : m (Except IoError String) := do
  return match ← MonadDisk.readBytes p with
    | .ok bytes => match String.fromUTF8? bytes with
      | some s => .ok s
      | none => .error .invalidUtf8
    | .error e => .error e

/-- The contents of a file, with what is not UTF-8 replaced. -/
def readLossy (p : Path) : m (Except IoError String) := do
  return (← MonadDisk.readBytes p).map Utf8.decodeLossy

/-- The modification time of what `p` names. -/
def modified? (p : Path) : m (Option Int) := do
  return match ← MonadDisk.metadata p with
    | .ok md => some md.modified
    | .error _ => none

end Disk

end TypeReflection
