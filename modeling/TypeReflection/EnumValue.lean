/-!
# Enum values

Enum values are signed 64-bit integers. An entry written without a value takes the value after
the previous one: one more, but never beyond the largest such integer, where it stays.
-/

set_option autoImplicit false

namespace TypeReflection

/-- The largest signed 64-bit integer. -/
def maxInt64 : Int := 9223372036854775807

/-- The value after `v` in an enum: one more, but never beyond `maxInt64`. -/
def nextEnumValue (v : Int) : Int := min (v + 1) maxInt64

end TypeReflection
