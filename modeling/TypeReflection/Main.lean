import TypeReflection.Tool

/-!
# The program

The tool on the real file system: file operations go to the operating system, file ids come
from its random source, and the time of a run is measured around it.
-/

set_option autoImplicit false

namespace TypeReflection.Host

/-- The cause of a failed operation, from the operating system's error number, which some
operations report negated. -/
def ioErrorOf (e : IO.Error) : IoError :=
  let described (code : UInt32) (details : String) : IoError :=
    let n := code.toNat
    match if n < Nat.pow 2 31 then n else Nat.pow 2 32 - n with
    | 2 => .notFound
    | 17 => .alreadyExists
    | 20 => .notADirectory
    | 21 => .isADirectory
    | n => .os n details
  match e with
  | .alreadyExists _ code details | .otherError code details | .resourceBusy code details
  | .resourceVanished code details | .unsupportedOperation code details
  | .hardwareFault code details | .unsatisfiedConstraints code details
  | .illegalOperation code details | .protocolError code details | .timeExpired code details
  | .interrupted _ code details | .noFileOrDirectory _ code details
  | .invalidArgument _ code details | .permissionDenied _ code details
  | .resourceExhausted _ code details | .inappropriateType _ code details
  | .noSuchThing _ code details => described code details
  | .unexpectedEof => .other "failed to fill whole buffer"
  | .userError msg => .other msg

/-- Runs an operation, catching its failure. -/
def guarded {α : Type} (act : IO α) : IO (Except IoError α) := do
  try return .ok (← act) catch e => return .error (ioErrorOf e)

/-- The kind of a file type reported by the operating system. -/
def kindOf (t : IO.FS.FileType) : EntryKind :=
  match t with
  | .dir => .directory
  | .file => .file
  | _ => .other

instance : MonadDisk IO where
  createDir p := guarded (IO.FS.createDir p.text)
  canonicalize p := guarded (do return ⟨(← IO.FS.realPath p.text).toString⟩)
  metadata p := guarded do
    let md ← (System.mkFilePath [p.text]).metadata
    return ⟨kindOf md.type, md.modified.sec * 1000000000 + md.modified.nsec.toNat⟩
  readDir p := guarded do
    let entries ← (System.mkFilePath [p.text]).readDir
    entries.toList.mapM fun e => do
      let md ← e.path.symlinkMetadata
      return ⟨e.fileName, kindOf md.type⟩
  readBytes p := guarded (IO.FS.readBinFile p.text)
  writeText p contents := guarded (IO.FS.writeFile p.text contents)

instance : MonadFileIds IO where
  freshId := do
    let bytes ← IO.getRandomBytes 16
    return FileId.ofBytes bytes.toList

end TypeReflection.Host

/-- Runs the tool and exits with its status. -/
def main (args : List String) : IO UInt32 := do
  let start ← IO.monoNanosNow
  let outcome ← (TypeReflection.runTool args : IO TypeReflection.ToolOutcome)
  let stop ← IO.monoNanosNow
  let report := outcome.report (stop - start)
  IO.print report.stdout
  IO.eprint report.stderr
  return report.exitCode
