import TypeReflection.Generation

/-!
# The command-line tool

The tool reads its command line (after turning `-force` into `--force`), makes the settings of
a run, runs the generator and reports. What it prints and its exit status depend only on how
that went:

* a command line that asks for help or the version: the text on standard output, status 0;
* any other fault of the command line: the error on standard error, status 2;
* settings that cannot be made: the fault on standard error, followed by the usage line for a
  missing option, status 1;
* a failed run: `Reflection generation for '<project>' failed: ` and the fault, then the
  failed file operation behind it, on standard error, status 1;
* a finished run: one line on standard output with the counts and the time taken, in seconds to
  three places, status 0.

Logging is not part of the report.
-/

set_option autoImplicit false

namespace TypeReflection

/-- How a use of the tool ended. -/
inductive ToolOutcome where
  /-- The command line was not read, or asked for help or the version. -/
  | arguments (e : ArgumentError)
  /-- The settings could not be made. -/
  | settings (e : SettingsError)
  /-- The run for `project` failed. -/
  | failed (project : String) (e : GenerationError)
  /-- The run for `project` finished. -/
  | finished (project : String) (summary : Summary)
  deriving Repr

/-- What the tool prints and the status it exits with. -/
structure ToolReport where
  exitCode : UInt32
  stdout : String
  stderr : String
  deriving DecidableEq, Repr

/-- A duration in nanoseconds as seconds with three places, the last one rounded. -/
def secondsText (nanos : Nat) : String :=
  let millis := (nanos + 500000) / 1000000
  let fraction := toString (millis % 1000)
  toString (millis / 1000) ++ "." ++ String.ofList (List.replicate (3 - fraction.length) '0') ++ fraction

namespace ToolOutcome

/-- The report of an outcome; a finished run took `nanos` nanoseconds. -/
def report (o : ToolOutcome) (nanos : Nat) : ToolReport :=
  match o with
  | .arguments .helpRequested => ⟨0, helpText, ""⟩
  | .arguments .versionRequested => ⟨0, versionText, ""⟩
  | .arguments e => ⟨2, "", e.render⟩
  | .settings e =>
    ⟨1, "", e.message ++ "\n" ++ (if e.isUsageError then usageHint ++ "\n" else "")⟩
  | .failed project e =>
    let cause := match e.cause? with
      | some c => ": " ++ c.message
      | none => ""
    ⟨1, "", "Reflection generation for '" ++ project ++ "' failed: " ++ e.message ++ cause ++ "\n"⟩
  | .finished project s =>
    ⟨0, s!"Reflection for {project} generated in {secondsText nanos}s ({s.generated} generated, {s.reused} up to date, {s.skipped} skipped)\n", ""⟩

end ToolOutcome

variable {m : Type → Type} [Monad m] [MonadDisk m] [MonadFileIds m]

/-- Uses the tool with the given arguments, without the program name. -/
def runTool (args : List String) : m ToolOutcome := do
  match CommandLine.read (normalizeArgs args) with
  | .error e => return .arguments e
  | .ok line =>
    match ← Settings.ofCommandLine line with
    | .error e => return .settings e
    | .ok s =>
      match ← (Generation.run s).run with
      | .error e => return .failed s.project e
      | .ok summary => return .finished s.project summary

end TypeReflection
