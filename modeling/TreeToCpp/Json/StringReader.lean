import TreeToCpp.Json.Bytes
import TreeToCpp.Json.ReadError

/-!
# Reading a string

A string runs to the next double quote that is not escaped. Control characters have to be escaped.
A character outside the basic plane may be escaped as two code units, the first of them a high
surrogate and the second a low one; a surrogate on its own is refused.

## Main definitions

* `readEscape` — the character of an escape
* `readString` — a string behind its opening quote
-/

namespace TreeToCpp.Json

/-- The four hexadecimal digits of an escape. -/
def readHex (src : ByteArray) (i : Nat) : Except Fault Nat :=
  if src.size < i + 4 then faultBehind .endInString src.size
  else
    let digits := [0, 1, 2, 3].map fun k => (byteAt src (i + k)).bind hexValue
    match digits with
    | [some a, some b, some c, some d] => .ok (((a * 16 + b) * 16 + c) * 16 + d)
    | _ => faultBehind .invalidEscape (i + 4)

/-- Whether a code unit opens a surrogate pair. -/
def isHighSurrogate (unit : Nat) : Bool :=
  0xD800 ≤ unit && unit ≤ 0xDBFF

/-- Whether a code unit closes a surrogate pair. -/
def isLowSurrogate (unit : Nat) : Bool :=
  0xDC00 ≤ unit && unit ≤ 0xDFFF

/-- The escape `\u` behind the letter, and the number of bytes from the letter on. -/
def readUnicodeEscape (src : ByteArray) (i : Nat) : Except Fault (Char × Nat) := do
  let first ← readHex src (i + 1)
  if isLowSurrogate first then faultBehind .loneSurrogate (i + 5)
  else if !isHighSurrogate first then return (Char.ofNat first, 5)
  else
    match byteAt src (i + 5) with
    | none => faultBehind .endInString (i + 5)
    | some b =>
      if b != 92 then faultBehind .brokenSurrogatePair (i + 6)
      else
        match byteAt src (i + 6) with
        | none => faultBehind .endInString (i + 6)
        | some b =>
          if b != 117 then faultBehind .brokenSurrogatePair (i + 7)
          else
            let second ← readHex src (i + 7)
            if isLowSurrogate second then
              return (Char.ofNat (0x10000 + (first - 0xD800) * 0x400 + (second - 0xDC00)), 11)
            else faultBehind .loneSurrogate (i + 11)

/-- The character of an escape behind its backslash, and the number of bytes it takes. -/
def readEscape (src : ByteArray) (i : Nat) : Except Fault (Char × Nat) :=
  match byteAt src i with
  | none => faultBehind .endInString i
  | some 34 => .ok ('"', 1)
  | some 92 => .ok ('\\', 1)
  | some 47 => .ok ('/', 1)
  | some 98 => .ok ('\x08', 1)
  | some 102 => .ok ('\x0c', 1)
  | some 110 => .ok ('\n', 1)
  | some 114 => .ok ('\r', 1)
  | some 116 => .ok ('\t', 1)
  | some 117 => readUnicodeEscape src i
  | some _ => faultBehind .invalidEscape (i + 1)

/-- The rest of a string behind its opening quote. `content` holds the bytes read so far. -/
def readString (src content : ByteArray) (i : Nat) : Step String :=
  if h : i < src.size then
    let b := src[i]
    if b == 34 then .ok ((String.fromUTF8? content).getD "", i + 1)
    else if b == 92 then
      match readEscape src (i + 1) with
      | .error fault => .error fault
      | .ok (c, width) => readString src (content ++ c.toString.toUTF8) (i + 1 + width)
    else if b < 32 then faultBehind .controlCharacter (i + 1)
    else readString src (content.push b) (i + 1)
  else faultBehind .endInString i
termination_by src.size - i

end TreeToCpp.Json
