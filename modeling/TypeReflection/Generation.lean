import TypeReflection.Options.Settings
import TypeReflection.HeaderFiles
import TypeReflection.Parse.File
import TypeReflection.Emit.Header
import TypeReflection.Naming
import TypeReflection.Token.Lexer

/-!
# Generating a project

A run makes sure the output directory exists and then walks each scan root that exists, in
the order given. Every header found gets one of three outcomes:

* *reused*: its generated file is at least as new as the header and records a valid file id
  (never when `force` is set); nothing is read or written, and the recorded id stays;
* *skipped*: the header does not include its own `<stem>.generated.h`, or holds no reflection
  marker;
* *generated*: the header is parsed and its generated file written under a fresh id. A header
  with a parse error stops the run with all of that header's errors.

Reused and generated headers become the entries of the project header, by their include path
relative to the canonical scan root and in the order met; the project header is written last.
Headers of the same stem share one generated file, and the later one wins.
-/

set_option autoImplicit false

namespace TypeReflection

/-- Why a run stopped. -/
inductive GenerationError where
  /-- The output directory could not be made or found. -/
  | outputDirectory (path : Path) (cause : IoError)
  /-- A file operation on `path` failed. -/
  | io (path : Path) (cause : IoError)
  /-- The header at `path` has parse errors. -/
  | parse (path : Path) (errors : List ParseError)
  deriving Repr

namespace GenerationError

/-- The report of the fault. -/
def message : GenerationError → String
  | .outputDirectory path cause =>
    "Can't find or create output directory! (" ++ path.text ++ ": " ++ cause.message ++ ")"
  | .io path cause => "I/O error on " ++ path.text ++ ": " ++ cause.message
  | .parse _ errors => "\n".intercalate (errors.map ParseError.display)

/-- The failed file operation behind the fault, if there is one. -/
def cause? : GenerationError → Option IoError
  | .outputDirectory _ cause | .io _ cause => some cause
  | .parse _ _ => none

end GenerationError

/-- What a run did: how many headers it generated, reused and skipped, and where it wrote the
project header. -/
structure Summary where
  generated : Nat
  reused : Nat
  skipped : Nat
  projectFile : Path
  deriving DecidableEq, Repr

/-- What became of one header. -/
inductive Outcome where
  | generated (id : FileId)
  | reused (id : FileId)
  | skipped
  deriving DecidableEq, Repr

/-- The entries of the project header so far and the counts of outcomes. -/
structure Progress where
  entries : List ProjectEntry := []
  generated : Nat := 0
  reused : Nat := 0
  skipped : Nat := 0

/-- Adds the outcome for the header included as `includedAs`. -/
def Progress.record (p : Progress) (includedAs : String) : Outcome → Progress
  | .generated id => { p with generated := p.generated + 1, entries := p.entries ++ [⟨includedAs, id⟩] }
  | .reused id => { p with reused := p.reused + 1, entries := p.entries ++ [⟨includedAs, id⟩] }
  | .skipped => { p with skipped := p.skipped + 1 }

namespace Generation

variable {m : Type → Type} [Monad m] [MonadDisk m] [MonadFileIds m]

/-- A file operation inside a run, its failure reported through `wrap`. -/
def attempt {α : Type} (wrap : IoError → GenerationError) (act : m (Except IoError α)) :
    ExceptT GenerationError m α :=
  ExceptT.mk ((·.mapError wrap) <$> act)

/-- The id of the generated file, if it can be kept: it is at least as new as the header and
records a valid id. -/
def reusableId (header generated : Path) : m (Option FileId) := do
  let some sourceTime ← Disk.modified? header | return none
  let some generatedTime ← Disk.modified? generated | return none
  if generatedTime < sourceTime then return none
  match ← Disk.readText generated with
  | .ok contents => return (FileId.fromGenerated contents).toOption
  | .error _ => return none

/-- The generated file of a header, in the output directory `output`. -/
def generatedPath (output header : Path) : Path :=
  output.join ⟨Naming.generatedFileName (header.stem?.getD "")⟩

/-- Whether a header's text asks for reflection: it names its own generated header and holds a
reflection marker. -/
def asksForReflection (source stem : String) : Bool :=
  includesGeneratedHeader source stem && (Lexer.new source).hasReflectionMarkers

/-- Reads a header and, if it asks for reflection, writes its generated file under a fresh id. -/
def generate (output header : Path) (includedAs : String) : ExceptT GenerationError m Outcome := do
  let source ← attempt (.io header) (Disk.readLossy header)
  if !asksForReflection source (header.stem?.getD "") then return .skipped
  let parsed := parseHeader source header.text
  if parsed.hasErrors then throw (.parse header parsed.diagnostics.errors.toList)
  let id ← (MonadFileIds.freshId : m FileId)
  let file := emitHeader parsed.decls id includedAs
  attempt (.io (generatedPath output header))
    (MonadDisk.writeText (generatedPath output header) file.contents)
  return .generated id

/-- Deals with one header, found under the output directory `output`. -/
def processHeader (s : Settings) (output header : Path) (includedAs : String) :
    ExceptT GenerationError m Outcome := do
  if !s.force then
    if let some id ← (reusableId header (generatedPath output header) : m _) then
      return .reused id
  generate output header includedAs

/-- Deals with headers found under the scan root whose canonical path is `root`, in order. -/
def processHeaders (s : Settings) (output root : Path) :
    List Path → Progress → ExceptT GenerationError m Progress
  | [], progress => pure progress
  | header :: headers, progress => do
    let includedAs := includePath header root
    let outcome ← processHeader s output header includedAs
    processHeaders s output root headers (progress.record includedAs outcome)

/-- Deals with the headers under one scan root. -/
def scanRoot (s : Settings) (output root : Path) (progress : Progress) :
    ExceptT GenerationError m Progress := do
  let canonical ← attempt (.io root) (MonadDisk.canonicalize root)
  let headers ← attempt (.io root) (collectHeaders canonical output)
  processHeaders s output canonical headers progress

/-- Deals with the scan roots in order, passing over those that do not exist. -/
def scanRoots (s : Settings) (output : Path) : List Path → Progress → ExceptT GenerationError m Progress
  | [], progress => pure progress
  | root :: roots, progress => do
    let progress ←
      if ← (Disk.pathExists root : m Bool) then scanRoot s output root progress else pure progress
    scanRoots s output roots progress

/-- Runs the generator with the given settings. -/
def run (s : Settings) : ExceptT GenerationError m Summary := do
  attempt (.outputDirectory s.output) (Disk.createDirAll s.output)
  let output ← attempt (.outputDirectory s.output) (MonadDisk.canonicalize s.output)
  let progress ← scanRoots s output s.scan {}
  let projectFile := output.join ⟨Naming.projectFileName s.project⟩
  attempt (.io projectFile)
    (MonadDisk.writeText projectFile (projectHeader s.project s.prelude progress.entries))
  return ⟨progress.generated, progress.reused, progress.skipped, projectFile⟩

end Generation

end TypeReflection
