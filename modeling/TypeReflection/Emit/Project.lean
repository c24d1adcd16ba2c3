import TypeReflection.Plan
import TypeReflection.FileId

/-!
# The project's registration header

One header per project gathers all generated headers: it includes a prelude and each header,
expands each header's implementation macro once, and defines `<Project>Reflection::Register()`,
which runs each registration pass over every file before the next pass starts.
-/

set_option autoImplicit false

namespace TypeReflection

/-- A generated header as the project sees it: the include path of its header and its id. -/
structure ProjectEntry where
  includePath : String
  id : FileId
  deriving DecidableEq, Repr

/-- The prelude included when none is chosen. -/
def defaultPrelude : String := "Core/Minimal.h"

/-- The registration header of project `project` over the entries, in order. -/
def projectHeader (project prelude : String) (entries : List ProjectEntry) : String :=
  let includes := String.join (entries.map fun e => "#include \"" ++ e.includePath ++ "\"\n")
  let implementations := String.join (entries.map fun e => "_" ++ e.id.text ++ "_IMPLEMENTATION\n")
  let passes :=
    if entries.isEmpty then ""
    else String.join (RegistrationPass.all.map fun pass =>
      "\n" ++ String.join (entries.map fun e => "\t\t" ++ pass.functionName e.id.text ++ "(registry);\n"))
  "// Generated by reflector. Do not edit.\n\n#pragma once\n\n" ++
    "#include \"" ++ prelude ++ "\"\n" ++ includes ++ "\n" ++
    implementations ++ (if entries.isEmpty then "" else "\n") ++
    "namespace " ++ project ++ "Reflection\n\x7b\n\n" ++
    "\tvoid Register()\n\t\x7b\n" ++
    "\t\tMeta::Registry& registry = Meta::Registry::Get();\n" ++
    passes ++
    "\t\x7d\n\n\x7d\n"

end TypeReflection
