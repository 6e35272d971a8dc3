/-!
# The bytes of a document

The characters that give a document its form are ASCII, so the reader looks at single bytes.
Positions count bytes from the start.

## Main definitions

* `byteAt` — the byte at a position
* `skipSpace`, `skipDigits` — the position behind a run of bytes
* `digitValue`, `hexValue` — what a digit is worth
-/

namespace TreeToCpp.Json

/-- The byte at a position, if the document reaches that far. -/
def byteAt (src : ByteArray) (i : Nat) : Option UInt8 :=
  if h : i < src.size then some src[i] else none

/-- Space, tab, line feed and carriage return separate the parts of a document. -/
def isSpace (b : UInt8) : Bool :=
  b == 32 || b == 9 || b == 10 || b == 13

/-- The digits from 0 to 9. -/
def isDigit (b : UInt8) : Bool :=
  48 ≤ b && b ≤ 57

/-- The value of a decimal digit. -/
def digitValue (b : UInt8) : Nat :=
  b.toNat - 48

/-- The value of a hexadecimal digit. -/
def hexValue (b : UInt8) : Option Nat :=
  if isDigit b then some (digitValue b)
  else if 97 ≤ b && b ≤ 102 then some (b.toNat - 87)
  else if 65 ≤ b && b ≤ 70 then some (b.toNat - 55)
  else none

/-- The position of the next byte that is not a separator. -/
def skipSpace (src : ByteArray) (i : Nat) : Nat :=
  if h : i < src.size then
    if isSpace src[i] then skipSpace src (i + 1) else i
  else i
termination_by src.size - i

/-- The position of the next byte that is not a digit. -/
def skipDigits (src : ByteArray) (i : Nat) : Nat :=
  if h : i < src.size then
    if isDigit src[i] then skipDigits src (i + 1) else i
  else i
termination_by src.size - i

end TreeToCpp.Json
