import TypeReflection.Registry.Basic
import TypeReflection.Text.Printable
import TypeReflection.Text.GraphemeExtend

/-!
# Debugging text of a registry

The registry, its types, properties, decorators and enums are shown as nested records
`Name { field: value, ... }`: texts in double quotes, lists in brackets, ids and integers in
decimal, and an absent value as `None`. Inside a text, `"`, `\`, the null character, tabs and
line breaks are escaped by a backslash, and a character that is not printable or that extends
the grapheme before it is written by its code point in hex, `\u{200b}`.
-/

set_option autoImplicit false

namespace TypeReflection.Debug

/-- The lowercase hex digits of a number. -/
def hex (n : Nat) : String := String.ofList (Nat.toDigits 16 n)

/-- How a character is written inside a quoted text. -/
def escapeChar (c : Char) : String :=
  match c with
  | '"' => "\\\""
  | '\\' => "\\\\"
  | '\n' => "\\n"
  | '\r' => "\\r"
  | '\t' => "\\t"
  | '\x00' => "\\0"
  | c =>
    if Text.isGraphemeExtender c || !Text.isPrintable c then "\\u\x7b" ++ hex c.toNat ++ "\x7d"
    else c.toString

/-- A text in double quotes. -/
def quote (s : String) : String := "\"" ++ String.join (s.toList.map escapeChar) ++ "\""

/-- A list in brackets. -/
def list (items : List String) : String := "[" ++ ", ".intercalate items ++ "]"

/-- A record with named fields. -/
def record (name : String) (fields : List (String × String)) : String :=
  name ++ " \x7b " ++ ", ".intercalate (fields.map fun (k, v) => k ++ ": " ++ v) ++ " \x7d"

/-- A decorator. -/
def decorator (d : Decorator) : String :=
  record "Decorator" [("name", quote d.name), ("values", list (d.values.map quote))]

/-- A value kind. -/
def valueKind : ValueKind → String
  | .bool => "Bool"
  | .signed => "Int"
  | .unsigned => "UInt"
  | .float => "Float"
  | .string => "Str"
  | .enum name => "Enum(" ++ quote name ++ ")"

/-- A property. -/
def property (p : Property) : String :=
  record "Property" [("name", quote p.name), ("type_name", quote p.typeName),
    ("kind", valueKind p.kind), ("read_only", toString p.readOnly),
    ("decorators", list (p.decorators.items.map decorator))]

/-- A registered type. -/
def typeEntry (t : TypeEntry) : String :=
  record "Type" [("name", quote t.name), ("id", toString t.id),
    ("parents", list (t.parents.map toString)), ("children", list (t.children.map toString)),
    ("properties", list (t.properties.map property)),
    ("decorators", list (t.decorators.items.map decorator)),
    ("has_serializer", toString t.serializer.isSome)]

/-- A registered enum. -/
def enumType (e : EnumType) : String :=
  record "Enum" [("name", quote e.name),
    ("values", list (e.entries.map fun (v, n) => "(" ++ toString v ++ ", " ++ quote n ++ ")")),
    ("last", match e.last with
      | some v => "Some(" ++ toString v ++ ")"
      | none => "None")]

/-- A registry: its types in order of id, then its enums. -/
def registry (r : Registry) : String :=
  record "Registry" [("types", list (r.types.map typeEntry)), ("enums", list (r.enums.map enumType))]

end TypeReflection.Debug
