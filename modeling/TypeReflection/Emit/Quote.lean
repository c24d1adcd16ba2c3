/-!
# Quoted texts in generated code

Names, types and decorator values are written into generated code as string literals: the
text between double quotes, where a double quote, a backslash, a line feed and a tab are
escaped with a backslash (`\"`, `\\`, `\n`, `\t`) and every other character stands for itself.
-/

set_option autoImplicit false

namespace TypeReflection.Quote

/-- How one character is written inside a literal. -/
def escapeChar (c : Char) : List Char :=
  match c with
  | '"' => ['\\', '"']
  | '\\' => ['\\', '\\']
  | '\n' => ['\\', 'n']
  | '\t' => ['\\', 't']
  | c => [c]

/-- The body of a literal for the characters `cs`. -/
def encode (cs : List Char) : List Char := cs.flatMap escapeChar

/-- The string literal that stands for `text`. -/
def literal (text : String) : String := "\"" ++ String.ofList (encode text.toList) ++ "\""

end TypeReflection.Quote
