/-!
# Multi-line macros

A macro of generated code is written as `#define NAME` followed by its lines, each on a line of
its own after a line continuation: every line but the last ends with a space and a backslash.
-/

set_option autoImplicit false

namespace TypeReflection.Macro

/-- The definition of macro `name` with the given lines, ending with a line feed. -/
def define (name : String) (lines : List String) : String :=
  "#define " ++ name ++ String.join (lines.map fun l => " \\\n" ++ l) ++ "\n"

end TypeReflection.Macro
