import TypeReflection.Disk

/-!
# Finding headers

A file is a header when its extension is one of `h`, `hpp`, `h++`, `hh` and `hxx`, in any
mix of ASCII case. `collectHeaders` walks a directory tree depth first, visiting the entries
of each directory in order of their names and leaving out everything whose path starts with
the excluded path (the output directory, which may lie inside the tree). Links are neither
followed nor collected.

A header is included by its path relative to the root it was found under, with `/` between
the parts; a path outside the root is written as it is.
-/

set_option autoImplicit false

namespace TypeReflection

/-- The extensions of headers, in lowercase. -/
def headerExtensions : List String := ["h", "hpp", "h++", "hh", "hxx"]

/-- Whether the path names a header, by its extension. -/
def isHeader (p : Path) : Bool :=
  match p.extension? with
  | some e => headerExtensions.contains (e.map Char.toLower)
  | none => false

/-- The path by which a header under `root` is included. -/
def includePath (p root : Path) : String := Path.partsText ((p.stripPrefix? root).getD p.parts)

/-- How deep `collectHeaders` goes: a path of a Linux file system has at most 4096 bytes and
each level adds at least two, so no tree there is deeper. -/
def maxTreeDepth : Nat := 4096

variable {m : Type → Type} [Monad m] [MonadDisk m]

/-- The headers that the entry `entry` of `dir` contributes, none if its path starts with
`exclude`; a subdirectory's headers are those `visit` finds in it. -/
def entryHeaders (exclude dir : Path) (visit : Path → ExceptT IoError m (List Path))
    (entry : DirEntry) : ExceptT IoError m (List Path) :=
  let p := dir.join ⟨entry.name⟩
  if p.startsWith exclude then pure []
  else match entry.kind with
    | .directory => visit p
    | .file => pure (if isHeader p then [p] else [])
    | .other => pure []

/-- The headers among the entries of `dir`, in order. -/
def collectEntries (exclude dir : Path) (visit : Path → ExceptT IoError m (List Path)) :
    List DirEntry → ExceptT IoError m (List Path)
  | [] => pure []
  | entry :: entries => do
    let here ← entryHeaders exclude dir visit entry
    return here ++ (← collectEntries exclude dir visit entries)

/-- The headers under `dir`, at most `fuel` levels down, leaving out paths that start with
`exclude`. -/
def collectIn (exclude : Path) : Nat → Path → ExceptT IoError m (List Path)
  | 0, _ => pure []
  | fuel + 1, dir => do
    let entries ← ExceptT.mk (MonadDisk.readDir dir)
    collectEntries exclude dir (collectIn exclude fuel) (DirEntry.sortByName entries)

/-- The headers under `root`, in the order of a depth-first walk by name, leaving out paths
that start with `exclude`. -/
def collectHeaders (root exclude : Path) : m (Except IoError (List Path)) :=
  (collectIn exclude maxTreeDepth root).run

end TypeReflection
