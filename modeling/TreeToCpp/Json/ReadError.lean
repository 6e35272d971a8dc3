/-!
# Faults of a JSON document

A fault names its cause and an offset, and the offset decides the line and the column that are
reported. There are two ways to choose it: a fault about the byte that comes next points behind that
byte, even though it is not taken; a fault about a byte that was taken points behind the last byte
taken. At the end of the document both point at the end.

## Main definitions

* `Cause` — why a document is refused
* `Fault` — a cause with an offset
* `ReadError` — a cause with a line and a column
* `Step` — what a step of the reader gives
-/

namespace TreeToCpp.Json

/-- Why a document is refused. -/
inductive Cause where
  | endInList
  | endInObject
  | endInString
  | endInValue
  | expectedColon
  | expectedCommaOrBracket
  | expectedCommaOrBrace
  | expectedIdent
  | expectedValue
  | invalidEscape
  | invalidNumber
  | numberOutOfRange
  | controlCharacter
  | keyNotString
  | loneSurrogate
  | trailingComma
  | trailingCharacters
  | brokenSurrogatePair
  | nestedTooDeep
  deriving DecidableEq, Repr

/-- The cause in words. -/
def Cause.text : Cause → String
  | .endInList => "EOF while parsing a list"
  | .endInObject => "EOF while parsing an object"
  | .endInString => "EOF while parsing a string"
  | .endInValue => "EOF while parsing a value"
  | .expectedColon => "expected `:`"
  | .expectedCommaOrBracket => "expected `,` or `]`"
  | .expectedCommaOrBrace => "expected `,` or `\x7d`"
  | .expectedIdent => "expected ident"
  | .expectedValue => "expected value"
  | .invalidEscape => "invalid escape"
  | .invalidNumber => "invalid number"
  | .numberOutOfRange => "number out of range"
  | .controlCharacter =>
    "control character (\\u0000-\\u001F) found while parsing a string"
  | .keyNotString => "key must be a string"
  | .loneSurrogate => "lone leading surrogate in hex escape"
  | .trailingComma => "trailing comma"
  | .trailingCharacters => "trailing characters"
  | .brokenSurrogatePair => "unexpected end of hex escape"
  | .nestedTooDeep => "recursion limit exceeded"

/-- A fault inside a document: its cause and the number of bytes up to the place it points at. -/
structure Fault where
  cause : Cause
  offset : Nat
  deriving DecidableEq, Repr

/-- Why and where a document is refused. Lines count from one; the column is the number of bytes
since the line began. -/
structure ReadError where
  cause : Cause
  line : Nat
  column : Nat
  deriving DecidableEq, Repr

/-- The error in words. -/
def ReadError.text (e : ReadError) : String :=
  e.cause.text ++ " at line " ++ toString e.line ++ " column " ++ toString e.column

/-- What a step of the reader gives: a result and the position behind it, or a fault. -/
abbrev Step (α : Type) := Except Fault (α × Nat)

/-- A fault about the byte that comes next. -/
def faultAhead {α : Type} (src : ByteArray) (cause : Cause) (i : Nat) : Except Fault α :=
  .error { cause := cause, offset := min src.size (i + 1) }

/-- A fault about the bytes that were taken. -/
def faultBehind {α : Type} (cause : Cause) (i : Nat) : Except Fault α :=
  .error { cause := cause, offset := i }

end TreeToCpp.Json
