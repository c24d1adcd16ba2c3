import TypeReflection.Disk

/-!
# A file system held in memory

A `MemoryDisk` keeps every directory and file under its absolute name, a list of names from
the root. A path is resolved the way an operating system resolves it: from the root or the
working directory, one piece between slashes at a time, `.` and `..` included, each piece
before the last having to name a directory (else `notADirectory`, or `notFound` when it is
missing). So `a/.` needs the directory `a` to exist, even to create it. A path that ends with
a slash must name a directory. There are no links, so the canonical form of a path is its
resolved name.

Files written get the disk's `clock` as their modification time, and fresh file ids come from
a counter through a bijective mix, so two ids given by one disk always differ. `MemoryRun`, a
state monad over the disk, has both capabilities, which makes a run of the generator on a
memory disk a pure function.
-/

set_option autoImplicit false

namespace TypeReflection

/-- What a name of a memory disk holds. -/
inductive Node where
  | directory
  /-- A file with its contents and modification time. -/
  | file (contents : String) (modified : Int)
  deriving DecidableEq, Repr

/-- A file system in memory: the working directory, every directory and file by absolute name
(the root is always a directory), the time given to files written, and how many file ids have
been given. -/
structure MemoryDisk where
  workDir : List String
  nodes : List (List String × Node)
  clock : Int
  issued : Nat
  deriving Repr

namespace MemoryDisk

/-- What `names` holds. -/
def node? (d : MemoryDisk) (names : List String) : Option Node :=
  if names.isEmpty then some .directory else (d.nodes.find? (·.1 == names)).map (·.2)

/-- Puts `node` at `names`, replacing what was there. -/
def put (d : MemoryDisk) (names : List String) (node : Node) : MemoryDisk :=
  if d.nodes.any (·.1 == names) then
    { d with nodes := d.nodes.map fun e => if e.1 == names then (names, node) else e }
  else { d with nodes := d.nodes ++ [(names, node)] }

/-- The pieces of a path between its slashes, empty ones dropped; `.` and `..` stay pieces. -/
def pieces (p : Path) : List String := (Path.splitPieces p.text).filter (· != "")

/-- The absolute name a path starts from: the root, or the working directory. -/
def start (d : MemoryDisk) (p : Path) : List String :=
  if p.text.startsWith "/" then [] else d.workDir

/-- Where one piece leads from the directory `cur`. -/
def step (cur : List String) : String → List String
  | "." => cur
  | ".." => cur.dropLast
  | n => cur ++ [n]

/-- Follows the pieces from `cur`; every piece before the last must lead to a directory. -/
def walk (d : MemoryDisk) (cur : List String) : List String → Except IoError (List String)
  | [] => .ok cur
  | [piece] => .ok (step cur piece)
  | piece :: rest =>
    let next := step cur piece
    match d.node? next with
    | some .directory => walk d next rest
    | some (.file _ _) => .error .notADirectory
    | none => .error .notFound

/-- The absolute name a path leads to, which need not exist, and whether the path asks for a
directory there by ending with a slash. -/
def resolve (d : MemoryDisk) (p : Path) : Except IoError (List String × Bool) :=
  if p.isEmpty then .error .notFound
  else (d.walk (d.start p) (pieces p)).map fun names => (names, p.text.endsWith "/")

/-- What an existing path names, with its absolute name; a path ending with a slash must name
a directory. -/
def existing (d : MemoryDisk) (p : Path) : Except IoError (List String × Node) := do
  let (names, wantsDirectory) ← d.resolve p
  match d.node? names with
  | some .directory => return (names, .directory)
  | some (.file contents modified) =>
    if wantsDirectory then throw .notADirectory else return (names, .file contents modified)
  | none => throw .notFound

/-- The absolute name a path leads to, following its pieces without any check. -/
def locate (d : MemoryDisk) (p : Path) : List String := (pieces p).foldl step (d.start p)

/-- The text of an absolute name. -/
def nameText (names : List String) : String := "/" ++ "/".intercalate names

/-- Creates one directory; anything already at its name, even a file, is in the way. -/
def createDir (d : MemoryDisk) (p : Path) : Except IoError MemoryDisk := do
  let (names, _) ← d.resolve p
  if (d.node? names).isSome then throw .alreadyExists
  return d.put names .directory

/-- The absolute path of what `p` names. -/
def canonicalize (d : MemoryDisk) (p : Path) : Except IoError Path := do
  return ⟨nameText (← d.existing p).1⟩

/-- The kind and time of what `p` names. -/
def metadata (d : MemoryDisk) (p : Path) : Except IoError Metadata := do
  match (← d.existing p).2 with
  | .directory => return ⟨.directory, 0⟩
  | .file _ t => return ⟨.file, t⟩

/-- The entries directly inside the directory `names`, in the order they were made. -/
def children (d : MemoryDisk) (names : List String) : List DirEntry :=
  d.nodes.filterMap fun (key, node) =>
    if key.dropLast == names && key.length == names.length + 1 then
      some ⟨key.getLast?.getD "", match node with
        | .directory => .directory
        | .file _ _ => .file⟩
    else none

/-- The entries of a directory. -/
def readDir (d : MemoryDisk) (p : Path) : Except IoError (List DirEntry) := do
  match ← d.existing p with
  | (names, .directory) => return d.children names
  | (_, .file _ _) => throw .notADirectory

/-- The contents of a file. -/
def readText (d : MemoryDisk) (p : Path) : Except IoError String := do
  match (← d.existing p).2 with
  | .file contents _ => return contents
  | .directory => throw .isADirectory

/-- Writes a file, stamped with the clock. A path ending with a slash asks for a directory,
which cannot be written, whatever stands there. -/
def writeText (d : MemoryDisk) (p : Path) (contents : String) : Except IoError MemoryDisk := do
  let (names, wantsDirectory) ← d.resolve p
  if wantsDirectory then throw .isADirectory
  match d.node? names with
  | some .directory => throw .isADirectory
  | _ => return d.put names (.file contents d.clock)

/-- One round of a 64-bit mix that is a bijection. -/
def mix (z : UInt64) : UInt64 :=
  let z := (z ^^^ (z >>> 30)) * 0xBF58476D1CE4E5B9
  let z := (z ^^^ (z >>> 27)) * 0x94D049BB133111EB
  z ^^^ (z >>> 31)

/-- The eight bytes of a word, high byte first. -/
def wordBytes (w : UInt64) : List UInt8 :=
  (List.range 8).reverse.map fun i => (w >>> (8 * i).toUInt64).toUInt8

/-- The `n`th id a memory disk gives. Its first eight bytes are a bijective mix of `2n`, so
different `n` give different ids. -/
def idAt (n : Nat) : FileId :=
  let seed : UInt64 := 0x9E3779B97F4A7C15
  FileId.ofBytes (wordBytes (mix (seed * (2 * n).toUInt64 + 1)) ++
    wordBytes (mix (seed * (2 * n + 1).toUInt64 + 1)))

/-- A disk holding only the directories of `workDir`, which is the working directory. -/
def withWorkDir (workDir : List String) (clock : Int) : MemoryDisk :=
  ⟨workDir, (List.range workDir.length).map fun i => (workDir.take (i + 1), .directory), clock, 0⟩

/-- Makes `names` and every directory above it a directory. -/
def makeDirs (d : MemoryDisk) (names : List String) : MemoryDisk :=
  (List.range names.length).foldl (fun d i =>
    let dir := names.take (i + 1)
    match d.node? dir with
    | some .directory => d
    | _ => d.put dir .directory) d

/-- Writes a file with the given time, making the directories above it. -/
def place (d : MemoryDisk) (names : List String) (contents : String) (modified : Int) :
    MemoryDisk :=
  (d.makeDirs names.dropLast).put names (.file contents modified)

/-- Sets the time of a file. -/
def touch (d : MemoryDisk) (names : List String) (modified : Int) : MemoryDisk :=
  match d.node? names with
  | some (.file contents _) => d.put names (.file contents modified)
  | _ => d

/-- Removes a file. -/
def remove (d : MemoryDisk) (names : List String) : MemoryDisk :=
  { d with nodes := d.nodes.filter fun (key, node) => !(key == names && node != .directory) }

/-- Every file under the directory `names`, as its path from there with its contents, sorted
by path. -/
def filesUnder (d : MemoryDisk) (names : List String) : List (String × String) :=
  let found := d.nodes.filterMap fun (key, node) =>
    match node with
    | .file contents _ =>
      if names.isPrefixOf key && names.length < key.length then
        some ("/".intercalate (key.drop names.length), contents)
      else none
    | .directory => none
  found.mergeSort fun a b => decide (a.1 ≤ b.1)

end MemoryDisk

/-- Computations over a memory disk. -/
abbrev MemoryRun := StateM MemoryDisk

/-- Runs a step that may change the disk, keeping the disk when it fails. -/
def MemoryDisk.change (f : MemoryDisk → Except IoError MemoryDisk) :
    MemoryRun (Except IoError Unit) :=
  modifyGet fun d => match f d with
    | .ok d' => (.ok (), d')
    | .error e => (.error e, d)

instance : MonadDisk MemoryRun where
  createDir p := MemoryDisk.change (·.createDir p)
  canonicalize p := return (← get).canonicalize p
  metadata p := return (← get).metadata p
  readDir p := return (← get).readDir p
  readBytes p := return ((← get).readText p).map String.toUTF8
  writeText p contents := MemoryDisk.change (·.writeText p contents)

instance : MonadFileIds MemoryRun where
  freshId := modifyGet fun d => (MemoryDisk.idAt d.issued, { d with issued := d.issued + 1 })

end TypeReflection
