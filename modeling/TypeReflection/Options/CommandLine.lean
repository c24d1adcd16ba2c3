import TypeReflection.Path
import TypeReflection.Text.Similarity

/-!
# The command line

The tool takes a project name (`-p`, `--project`), an output directory (`-o`, `--output`), any
number of directories to scan (`-s`, `--scan`), `--force`, a prelude header (`--prelude`), a
settings file (`-c`, `--config`) and `-v` (`--verbose`), besides `-h` (`--help`) and `-V`
(`--version`). Before reading, a lone `-force` is taken as `--force`.

Reading goes left to right, one argument at a time:
* `--name=value` and `--name value` give a long option its value; a flag given `=value` is an
  error. An unknown long name is an error that suggests the most similar known name.
* `-xyz` is a cluster of short options. Flags are taken one by one; the first option that takes
  a value takes the rest of the cluster (without a leading `=`) or, if nothing is left, the next
  argument.
* An argument that does not start with `-` (or is `-` itself) is the value an option is
  waiting for, or else an error; after `--` every argument is an error.
* An option that takes one value may be given once; so may a flag. Paths may not be empty.
An option still waiting when another option arrives, or when the arguments run out, is an
error, except that an unknown argument is reported first. Asking for help or the version ends
reading at once.

The usage line of an unknown long name names the options given so far and then the suggested
one. That of a flag given a value lists the options given so far and the flag; a value still
waiting for its option does not count yet, and once any setting (an option other than help
and version) has been given, all settings are shown as one group
`<--project <PROJECT_NAME>|...|--verbose>` instead of by name.
-/

set_option autoImplicit false

namespace TypeReflection

/-- The name the tool goes by. -/
def toolName : String := "reflector"

/-- The version of the tool. -/
def toolVersion : String := "0.1.0"

/-- What the tool does, in one line. -/
def toolAbout : String := "Generate reflection registration code for C++ headers"

/-- The options of the command line. -/
inductive OptionKey where
  | project
  | output
  | scan
  | force
  | prelude
  | config
  | verbose
  | help
  | version
  deriving DecidableEq, Repr

/-- How an option is given. -/
inductive OptionForm where
  /-- One text, given at most once. -/
  | text
  /-- One nonempty path, given at most once. -/
  | path
  /-- One nonempty path each time; may be repeated. -/
  | paths
  /-- No value, given at most once. -/
  | flag
  /-- Shows the help. -/
  | help
  /-- Shows the version. -/
  | version
  deriving DecidableEq, Repr

/-- An option: its key, short and long names, the name of its value and what it is for. -/
structure OptionSpec where
  key : OptionKey
  short : Option Char
  long : String
  valueName : Option String
  form : OptionForm
  help : String
  deriving Repr

/-- The options, in the order the help lists them. -/
def optionSpecs : List OptionSpec := [
  ⟨.project, some 'p', "project", some "PROJECT_NAME", .text,
    "Project name, used for the aggregate header and its namespace"⟩,
  ⟨.output, some 'o', "output", some "OUT_PATH", .path, "Directory receiving generated headers"⟩,
  ⟨.scan, some 's', "scan", some "SCAN_PATH", .paths, "Directory to scan for headers (repeatable)"⟩,
  ⟨.force, none, "force", none, .flag,
    "Regenerate every header even if its generated file is up to date"⟩,
  ⟨.prelude, none, "prelude", some "INCLUDE", .text, "Header included first by the aggregate header"⟩,
  ⟨.config, some 'c', "config", some "FILE", .path, "TOML file providing defaults for the options above"⟩,
  ⟨.verbose, some 'v', "verbose", none, .flag, "Log debug output"⟩,
  ⟨.help, some 'h', "help", none, .help, "Print help"⟩,
  ⟨.version, some 'V', "version", none, .version, "Print version"⟩]

namespace OptionSpec

/-- Whether the option takes a value. -/
def takesValue (s : OptionSpec) : Bool := s.valueName.isSome

/-- Whether the option is one of the tool's own settings, as opposed to help and version.
Usage lines may show the settings together as one group. -/
def isSetting (s : OptionSpec) : Bool :=
  match s.form with
  | .help | .version => false
  | _ => true

/-- How errors and usage lines name the option: its long name and value. -/
def display (s : OptionSpec) : String :=
  "--" ++ s.long ++ (match s.valueName with
    | some v => " <" ++ v ++ ">"
    | none => "")

/-- The option with the given long name. -/
def byLong? (name : String) : Option OptionSpec := optionSpecs.find? (·.long == name)

/-- The option with the given short name. -/
def byShort? (c : Char) : Option OptionSpec := optionSpecs.find? (·.short == some c)

/-- The option with the given key. -/
def byKey? (k : OptionKey) : Option OptionSpec := optionSpecs.find? (·.key == k)

end OptionSpec

/-- The options read from a command line; absent ones are `none`, `false` or empty. -/
structure CommandLine where
  project : Option String := none
  output : Option Path := none
  scan : List Path := []
  force : Bool := false
  prelude : Option String := none
  config : Option Path := none
  verbose : Bool := false
  deriving DecidableEq, Repr, Inhabited

/-- What the usage line of an error lists: options by name, and whether the group of all
settings is shown, in place of the settings among them. -/
structure UsageItems where
  named : List OptionKey := []
  grouped : Bool := false
  deriving DecidableEq, Repr

/-- Why a command line was not read, or that it asks for help or the version. -/
inductive ArgumentError where
  /-- An argument that is no option, possibly with a similar long name, and what the usage
  line lists. -/
  | unknownArgument (arg : String) (suggestion : Option String) (used : UsageItems)
  /-- An option was given no value, or an empty path. -/
  | missingValue (key : OptionKey)
  /-- A flag was given a value. -/
  | unexpectedValue (value : String) (key : OptionKey) (used : UsageItems)
  /-- An option that may be given once was given again. -/
  | repeated (key : OptionKey)
  | helpRequested
  | versionRequested
  deriving DecidableEq, Repr

/-- Rewrites the single-dash `-force` as `--force`. -/
def normalizeArgs (args : List String) : List String :=
  args.map fun a => if a == "-force" then "--force" else a

/-- Where reading stands: the options so far, the keys given so far in order, whether any
setting was ever given (a setting given twice is dropped from `seen` but not from this), an
option waiting for its value (with the value, once it came), and whether `--` was passed. -/
structure ReadState where
  line : CommandLine := {}
  seen : List OptionKey := []
  grouped : Bool := false
  pending : Option (OptionSpec × Option String) := none
  afterSeparator : Bool := false

namespace ReadState

/-- Gives option `spec` the values of one occurrence. Gives the state as the attempt leaves it,
also when it fails: a repeated option is forgotten, and an option whose value is refused counts
as given. -/
def store (st : ReadState) (spec : OptionSpec) (values : List String) :
    ReadState × Option ArgumentError :=
  let k := spec.key
  let given := st.seen.contains k
  let seen := if given then st.seen else st.seen ++ [k]
  match spec.form, values with
  | .help, _ => (st, some .helpRequested)
  | .version, _ => (st, some .versionRequested)
  | .flag, _ =>
    if given then ({ st with seen := st.seen.erase k }, some (.repeated k))
    else
      let line := match k with
        | .force => { st.line with force := true }
        | _ => { st.line with verbose := true }
      ({ st with line, seen, grouped := true }, none)
  | _, [] => (st, some (.missingValue k))
  | .paths, v :: _ =>
    if v.isEmpty then ({ st with seen, grouped := true }, some (.missingValue k))
    else
      ({ st with line := { st.line with scan := st.line.scan ++ [⟨v⟩] }, seen, grouped := true },
        none)
  | form, v :: _ =>
    if given then ({ st with seen := st.seen.erase k }, some (.repeated k))
    else if form == .path && v.isEmpty then ({ st with seen, grouped := true }, some (.missingValue k))
    else
      let line := match k with
        | .project => { st.line with project := some v }
        | .output => { st.line with output := some ⟨v⟩ }
        | .prelude => { st.line with prelude := some v }
        | _ => { st.line with config := some ⟨v⟩ }
      ({ st with line, seen, grouped := true }, none)

/-- `store`, failing on an error. -/
def give (st : ReadState) (spec : OptionSpec) (values : List String) :
    Except ArgumentError ReadState :=
  match st.store spec values with
  | (st, none) => .ok st
  | (_, some e) => .error e

/-- Gives the waiting option its value, failing if it has none or it is refused. -/
def settle (st : ReadState) : Except ArgumentError ReadState :=
  match st.pending with
  | none => .ok st
  | some (spec, v) => { st with pending := none }.give spec v.toList

/-- Gives the waiting option its value, ignoring a failure. -/
def settleQuietly (st : ReadState) : ReadState :=
  match st.pending with
  | none => st
  | some (spec, v) => ({ st with pending := none }.store spec v.toList).1

/-- Makes `spec` wait for its value. -/
def await (st : ReadState) (spec : OptionSpec) : Except ArgumentError ReadState := do
  let st ← st.settle
  return { st with pending := some (spec, none) }

/-- The long name most similar to `name`, if any is similar enough. -/
def suggest (name : String) : Option OptionSpec :=
  (Similarity.closest name (optionSpecs.map (·.long))).bind OptionSpec.byLong?

/-- Reads `--body`. -/
def readLong (st : ReadState) (body : String) : Except ArgumentError ReadState :=
  let name := String.ofList (body.toList.takeWhile (· != '='))
  let value? := if body.toList.contains '=' then
      some (String.ofList ((body.toList.dropWhile (· != '=')).drop 1))
    else none
  match OptionSpec.byLong? name with
  | none =>
    let st := st.settleQuietly
    -- the suggested option counts as given, for the usage line
    let hint := suggest name
    let used : UsageItems := match hint with
      | some s => ⟨if st.seen.contains s.key then st.seen else st.seen ++ [s.key], false⟩
      | none => ⟨st.seen, false⟩
    .error (.unknownArgument ("--" ++ name) (hint.map (·.long)) used)
  | some spec =>
    if spec.takesValue then
      match value? with
      | some v => do (← st.settle).give spec [v]
      | none => st.await spec
    else
      match value? with
      | some v => .error (.unexpectedValue v spec.key ⟨st.seen ++ [spec.key], st.grouped⟩)
      | none => do (← st.settle).give spec []

/-- Reads the rest of a cluster of short options. -/
def readShort (st : ReadState) : List Char → Except ArgumentError ReadState
  | [] => .ok st
  | c :: more =>
    match OptionSpec.byShort? c with
    | none => .error (.unknownArgument (String.ofList ['-', c]) none {})
    | some spec =>
      if !spec.takesValue then do
        let st ← (← st.settle).give spec []
        readShort st more
      else if more.isEmpty then st.await spec
      else
        let v := match more with
          | '=' :: rest => rest
          | _ => more
        do (← st.settle).give spec [String.ofList v]

/-- Reads one argument. -/
def readOne (st : ReadState) (a : String) : Except ArgumentError ReadState :=
  if st.afterSeparator then .error (.unknownArgument a none {})
  else if a == "--" then .ok { st with afterSeparator := true }
  else if a.startsWith "--" then st.readLong (String.ofList (a.toList.drop 2))
  else if a.startsWith "-" && a.length > 1 then st.readShort (a.toList.drop 1)
  else match st.pending with
    | some (spec, none) => .ok { st with pending := some (spec, some a) }
    | _ => .error (.unknownArgument a none {})

/-- Reads the arguments in order, then settles the option still waiting. -/
def readAll (st : ReadState) : List String → Except ArgumentError ReadState
  | [] => st.settle
  | a :: rest => do readAll (← st.readOne a) rest

end ReadState

/-- Reads a command line, given without the program name. -/
def CommandLine.read (args : List String) : Except ArgumentError CommandLine :=
  (ReadState.readAll {} args).map (·.line)

namespace ArgumentError

/-- The name of the kind of error. -/
def kindName : ArgumentError → String
  | .unknownArgument .. => "UnknownArgument"
  | .missingValue _ => "InvalidValue"
  | .unexpectedValue .. => "TooManyValues"
  | .repeated _ => "ArgumentConflict"
  | .helpRequested => "DisplayHelp"
  | .versionRequested => "DisplayVersion"

/-- How an option is named in messages. -/
def optionText (k : OptionKey) : String := ((OptionSpec.byKey? k).map (·.display)).getD ""

/-- The group of all settings, as a usage line shows it: `<--project <PROJECT_NAME>|...>`. -/
def settingsGroup : String :=
  "<" ++ "|".intercalate ((optionSpecs.filter (·.isSetting)).map (·.display)) ++ ">"

/-- The usage line of an error: `[OPTIONS]` when it lists nothing, else the options named
that the group does not stand for, then the group when it is shown. -/
def usageLine (used : UsageItems) : String :=
  if used.named.isEmpty && !used.grouped then "Usage: " ++ toolName ++ " [OPTIONS]"
  else
    let absorbed (k : OptionKey) : Bool :=
      used.grouped && ((OptionSpec.byKey? k).map (·.isSetting)).getD false
    let named := (used.named.eraseDups.filter fun k => !absorbed k).map fun k => " " ++ optionText k
    "Usage: " ++ toolName ++ String.join named ++ (if used.grouped then " " ++ settingsGroup else "")

/-- The closing line of an error. -/
def tryHelp : String := "\n\nFor more information, try '--help'.\n"

/-- The report of an error, as the tool prints it. -/
def render : ArgumentError → String
  | .unknownArgument arg hint used =>
    "error: unexpected argument '" ++ arg ++ "' found\n" ++
      (match hint with
        | some h => "\n  tip: a similar argument exists: '--" ++ h ++ "'\n"
        | none => "") ++
      "\n" ++ usageLine used ++ tryHelp
  | .missingValue k =>
    "error: a value is required for '" ++ optionText k ++ "' but none was supplied" ++ tryHelp
  | .unexpectedValue v k used =>
    "error: unexpected value '" ++ v ++ "' for '" ++ optionText k ++
      "' found; no more were expected\n\n" ++ usageLine used ++ tryHelp
  | .repeated k =>
    "error: the argument '" ++ optionText k ++ "' cannot be used multiple times\n\n" ++
      usageLine {} ++ tryHelp
  | .helpRequested => ""
  | .versionRequested => ""

end ArgumentError

/-- The help text: what the tool does, its usage, and a table of the options whose
descriptions start in one column, two spaces after the widest option. -/
def helpText : String :=
  let left (s : OptionSpec) : String :=
    (match s.short with
      | some c => String.ofList ['-', c, ',', ' ']
      | none => "    ") ++ s.display
  let width := (optionSpecs.map fun s => (left s).length).foldl max 0
  let row (s : OptionSpec) : String :=
    "  " ++ left s ++ String.ofList (List.replicate (width - (left s).length + 2) ' ') ++ s.help ++ "\n"
  toolAbout ++ "\n\nUsage: " ++ toolName ++ " [OPTIONS]\n\nOptions:\n" ++ String.join (optionSpecs.map row)

/-- The version line. -/
def versionText : String := toolName ++ " " ++ toolVersion ++ "\n"

end TypeReflection
