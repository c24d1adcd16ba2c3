/-!
# File names

The names of the files the generator writes: beside each header `<stem>.h` a generated
companion `<stem>.generated.h`, and for a project `P` one registration header
`PReflection.h` that gathers them all.
-/

set_option autoImplicit false

namespace TypeReflection.Naming

/-- What a generated companion header adds to its header's stem. -/
def generatedSuffix : String := ".generated.h"

/-- The generated companion of the header with stem `stem`. -/
def generatedFileName (stem : String) : String := stem ++ generatedSuffix

/-- The registration header of a project. -/
def projectFileName (project : String) : String := project ++ "Reflection.h"

end TypeReflection.Naming
