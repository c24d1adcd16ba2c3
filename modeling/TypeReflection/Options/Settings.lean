import TypeReflection.Options.CommandLine
import TypeReflection.Options.SettingsFile
import TypeReflection.Disk
import TypeReflection.Emit.Project

/-!
# Settings of a run

A run needs a project name, an output directory, the directories to scan, whether to
regenerate everything, and the header the project header includes first. Each comes from the
command line or else from the settings file named by `--config`; the command line wins, and
`force` holds if either side sets it. The prelude defaults to `Core/Minimal.h`.

Relative `output` and `scan` paths of a settings file are taken from the file's directory.

Resolving checks, in this order, that there is a nonempty output path, at least one scan path
(the command line's, if it gives any, else the file's), and a nonempty project name, which must
be a C identifier of ASCII letters, digits and underscores. The first three faults are usage
errors, which the tool follows with its usage line.
-/

set_option autoImplicit false

namespace TypeReflection

/-- The usage line printed after a usage error. -/
def usageHint : String :=
  "Usage: " ++ toolName ++ " -pPROJECT_NAME -oOUT_PATH -sSCAN_PATH [-sSCAN_PATH ...] [-force]"

/-- What a run is told to do. -/
structure Settings where
  project : String
  output : Path
  scan : List Path
  force : Bool
  prelude : String
  deriving DecidableEq, Repr, Inhabited

/-- Why the settings of a run could not be made. -/
inductive SettingsError where
  | missingOutput
  | missingScanPath
  | missingProject
  /-- The project name is not a C identifier. -/
  | invalidProject (name : String)
  /-- The settings file could not be read. -/
  | unreadable (path : Path) (cause : IoError)
  /-- The settings file is not a valid settings file. -/
  | malformed (path : Path) (cause : TomlError)
  deriving DecidableEq, Repr

namespace SettingsError

/-- The report of the fault. -/
def message : SettingsError → String
  | .missingOutput => "Please, specify the output path with -oOUT_PATH!"
  | .missingScanPath => "Please, specify at least one scan path with -sSCAN_PATH!"
  | .missingProject => "Please, specify project name with -pPROJECT_NAME!"
  | .invalidProject name => "Invalid project name '" ++ name ++ "': expected a C++ identifier"
  | .unreadable path cause => "Failed to read config file " ++ path.text ++ ": " ++ cause.message
  | .malformed path cause => "Failed to parse config file " ++ path.text ++ ": " ++ cause.message

/-- Whether the fault is a missing option, which the usage line explains. -/
def isUsageError : SettingsError → Bool
  | .missingOutput | .missingScanPath | .missingProject => true
  | _ => false

end SettingsError

/-- Whether a name is a C identifier: an ASCII letter or underscore, then ASCII letters,
digits and underscores. -/
def isIdentifier (name : String) : Bool :=
  let isLetter (c : Char) : Bool := ('A' ≤ c && c ≤ 'Z') || ('a' ≤ c && c ≤ 'z')
  match name.toList with
  | c :: cs => (isLetter c || c == '_') && cs.all fun d => isLetter d || d.isDigit || d == '_'
  | [] => false

/-- Settings of a run with the defaults for what is not given. -/
def Settings.ofParts (project : String) (output : Path) (scan : List Path) : Settings :=
  ⟨project, output, scan, false, defaultPrelude⟩

/-- The settings from a command line and a settings file, the command line winning. -/
def Settings.resolve (line : CommandLine) (file : Option SettingsFile) :
    Except SettingsError Settings := do
  let file := file.getD {}
  let output ← match (line.output <|> file.output).filter (!·.text.isEmpty) with
    | some o => pure o
    | none => throw .missingOutput
  let scan := if line.scan.isEmpty then file.scan else line.scan
  if scan.isEmpty then throw .missingScanPath
  let project ← match (line.project <|> file.project).filter (!·.isEmpty) with
    | some p => pure p
    | none => throw .missingProject
  if !isIdentifier project then throw (.invalidProject project)
  return {
    project, output, scan,
    force := line.force || file.force.getD false,
    prelude := (line.prelude <|> file.prelude).getD defaultPrelude }

/-- Takes the relative paths of a settings file from its directory `dir`. -/
def SettingsFile.within (file : SettingsFile) (dir : Path) : SettingsFile :=
  { file with output := file.output.map dir.join, scan := file.scan.map dir.join }

variable {m : Type → Type} [Monad m] [MonadDisk m]

/-- Reads the settings file at `path`. -/
def SettingsFile.load (path : Path) : m (Except SettingsError SettingsFile) := do
  match ← Disk.readText path with
  | .error e => return .error (.unreadable path e)
  | .ok text =>
    match SettingsFile.parse text with
    | .error e => return .error (.malformed path e)
    | .ok file => return .ok (match path.parent? with
      | some dir => file.within dir
      | none => file)

/-- The settings a command line asks for, reading its settings file if it names one. -/
def Settings.ofCommandLine (line : CommandLine) : m (Except SettingsError Settings) := do
  match line.config with
  | none => return Settings.resolve line none
  | some path =>
    match ← SettingsFile.load path with
    | .error e => return .error e
    | .ok file => return Settings.resolve line (some file)

end TypeReflection
