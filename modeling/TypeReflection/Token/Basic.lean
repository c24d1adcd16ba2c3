/-!
# Tokens of an annotated header

The scanner reads a header as a flat stream of tokens: the reflection markers, the few
keywords that may follow them, names, literals and punctuation. A token keeps its exact text
and the span of the header it covers; nothing else of the header survives scanning.

Each kind has a fixed spelling (`TokenKind.spelling`), and two classes of kinds matter to the
parser: *markers*, which start a reflected declaration, and *words*, which are written apart
from a neighbouring word when a type is spelled from its tokens.
-/

set_option autoImplicit false

namespace TypeReflection

/-- The kinds of token the scanner produces. -/
inductive TokenKind where
  | propertyMarker
  | classMarker
  | structMarker
  | methodMarker
  | enumMarker
  | generatedBody
  | kwClass
  | kwStruct
  | kwEnum
  | kwConst
  | kwAuto
  | identifier
  | number
  | string
  | leftParen
  | rightParen
  | leftBrace
  | rightBrace
  | leftBracket
  | rightBracket
  | semicolon
  | colon
  | colonColon
  | comma
  | hash
  | star
  | amp
  | less
  | greater
  | minus
  | equal
  | plusEqual
  | minusEqual
  | starEqual
  | slashEqual
  | percentEqual
  | caretEqual
  | ampEqual
  | pipeEqual
  | lessLessEqual
  | greaterGreaterEqual
  | equalEqual
  | bangEqual
  | lessEqual
  | greaterEqual
  | eof
  deriving DecidableEq, Repr, Inhabited

namespace TokenKind

/-- A marker opens a reflected declaration: a property, class, struct, method or enum. -/
def isMarker : TokenKind → Bool
  | propertyMarker | classMarker | structMarker | methodMarker | enumMarker => true
  | _ => false

/-- Words are names, numbers, keywords, markers and the body anchor: two words in a row are
written with a blank between them. -/
def isWord : TokenKind → Bool
  | identifier | number | kwClass | kwStruct | kwEnum | kwConst | kwAuto => true
  | generatedBody => true
  | k => k.isMarker

/-- The fixed spelling of a kind: its text for keywords, markers and punctuation, and a
description for the kinds whose text varies. -/
def spelling : TokenKind → String
  | propertyMarker => "GPROPERTY"
  | classMarker => "GCLASS"
  | structMarker => "GSTRUCT"
  | methodMarker => "GMETHOD"
  | enumMarker => "GENUM"
  | generatedBody => "GENERATED_BODY"
  | kwClass => "class"
  | kwStruct => "struct"
  | kwEnum => "enum"
  | kwConst => "const"
  | kwAuto => "auto"
  | identifier => "identifier"
  | number => "number"
  | string => "string"
  | leftParen => "("
  | rightParen => ")"
  | leftBrace => "\x7b"
  | rightBrace => "\x7d"
  | leftBracket => "["
  | rightBracket => "]"
  | semicolon => ";"
  | colon => ":"
  | colonColon => "::"
  | comma => ","
  | hash => "#"
  | star => "*"
  | amp => "&"
  | less => "<"
  | greater => ">"
  | minus => "-"
  | equal => "="
  | plusEqual => "+="
  | minusEqual => "-="
  | starEqual => "*="
  | slashEqual => "/="
  | percentEqual => "%="
  | caretEqual => "^="
  | ampEqual => "&="
  | pipeEqual => "|="
  | lessLessEqual => "<<="
  | greaterGreaterEqual => ">>="
  | equalEqual => "=="
  | bangEqual => "!="
  | lessEqual => "<="
  | greaterEqual => ">="
  | eof => "end of file"

/-- How a kind is named in a message: the kinds with varying text by their description, every
other kind by its spelling in single quotes. -/
def describe : TokenKind → String
  | identifier => "identifier"
  | number => "number"
  | string => "string"
  | eof => "end of file"
  | k => "'" ++ k.spelling ++ "'"

end TokenKind

/-- A stretch of the header: byte offsets `start` and `stop`, and the line and column (both
counted from one, columns in characters) of its first character. -/
structure Span where
  start : Nat
  stop : Nat
  line : Nat
  column : Nat
  deriving DecidableEq, Repr, Inhabited

namespace Span

/-- The number of bytes the span covers. -/
def length (s : Span) : Nat := s.stop - s.start

/-- A span is empty when it covers no byte. -/
def isEmpty (s : Span) : Bool := s.start == s.stop

/-- An empty span at the end of another one, keeping that one's line and column. -/
def atEnd (s : Span) : Span := ⟨s.stop, s.stop, s.line, s.column⟩

/-- The text of the header under the span. -/
def slice (s : Span) (text : String) : String :=
  (String.fromUTF8? (text.toUTF8.extract s.start s.stop)).getD ""

end Span

/-- A token: its kind, its exact text in the header, and where it stands. -/
structure Token where
  kind : TokenKind
  text : String
  span : Span
  deriving DecidableEq, Repr, Inhabited

namespace Token

/-- The end-of-input token standing at `span`. -/
def endOfInput (span : Span) : Token := ⟨.eof, "", span⟩

/-- Whether the token is the name `name`. -/
def isName (t : Token) (name : String) : Bool :=
  t.kind == .identifier && t.text == name

/-- How a token is named in a message: its text in single quotes, or "end of file". -/
def describe (t : Token) : String :=
  match t.kind with
  | .eof => "end of file"
  | _ => "'" ++ t.text ++ "'"

end Token

end TypeReflection
