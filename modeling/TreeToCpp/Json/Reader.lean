import TreeToCpp.Json.NumberReader
import TreeToCpp.Json.StringReader
import TreeToCpp.Json.Value

/-!
# Reading a JSON document

The reader walks over the bytes of a document by position. Arrays and objects may be nested only so
deep: the reader is given the number of levels that are left and refuses the bracket that would use
up the last one.

## Main definitions

* `readValue` — a value at a position
* `Value.ofText` — the value of a whole document
-/

namespace TreeToCpp.Json

/-! ## Values -/

/-- The rest of one of the words `null`, `true` and `false`. -/
def readWord (src : ByteArray) (value : Value) : List UInt8 → Nat → Step Value
  | [], i => .ok (value, i)
  | expected :: rest, i =>
    match byteAt src i with
    | none => faultBehind .endInValue i
    | some b =>
      if b == expected then readWord src value rest (i + 1)
      else faultBehind .expectedIdent (i + 1)

/-- The members read so far, latest first, with one more. A later member of the same name takes
the place of an earlier one. -/
def addMember (members : Members) (key : String) (value : Value) : Members :=
  (key, value) ::
    (if members.any (·.1 == key) then members.filter (·.1 != key) else members)

mutual

/-- A value at a position, with `levels` levels of nesting left. Every step of `fuel` pays for at
least one byte or one level, so twice the size of the document is always enough. -/
def readValue (src : ByteArray) : (fuel levels i : Nat) → Step Value
  | 0, _, i => faultBehind .endInValue i
  | fuel + 1, levels, i =>
    let i := skipSpace src i
    match byteAt src i with
    | none => faultAhead src .endInValue i
    | some 110 => readWord src .null [117, 108, 108] (i + 1)
    | some 116 => readWord src (.boolean true) [114, 117, 101] (i + 1)
    | some 102 => readWord src (.boolean false) [97, 108, 115, 101] (i + 1)
    | some 34 =>
      (readString src ByteArray.empty (i + 1)).map fun (text, stop) => (.string text, stop)
    | some 91 =>
      if levels ≤ 1 then faultAhead src .nestedTooDeep i
      else readItems src fuel (levels - 1) [] (i + 1)
    | some 123 =>
      if levels ≤ 1 then faultAhead src .nestedTooDeep i
      else readMembers src fuel (levels - 1) [] (i + 1)
    | some 45 => (Number.read src true (i + 1)).map fun (n, stop) => (.number n, stop)
    | some b =>
      if isDigit b then (Number.read src false i).map fun (n, stop) => (.number n, stop)
      else faultAhead src .expectedValue i

/-- The items of an array, latest first, up to the closing bracket. -/
def readItems (src : ByteArray) : (fuel levels : Nat) → List Value → Nat → Step Value
  | 0, _, _, i => faultBehind .endInList i
  | fuel + 1, levels, items, i =>
    let i := skipSpace src i
    match byteAt src i with
    | none => faultAhead src .endInList i
    | some b =>
      if b == 93 then .ok (.array items.reverse, i + 1)
      else if items.isEmpty then
        match readValue src fuel levels i with
        | .error fault => .error fault
        | .ok (value, stop) => readItems src fuel levels (value :: items) stop
      else if b != 44 then faultAhead src .expectedCommaOrBracket i
      else
        let i := skipSpace src (i + 1)
        if byteAt src i == some 93 then faultAhead src .trailingComma i
        else
          match readValue src fuel levels i with
          | .error fault => .error fault
          | .ok (value, stop) => readItems src fuel levels (value :: items) stop

/-- The members of an object, latest first, up to the closing brace. -/
def readMembers (src : ByteArray) : (fuel levels : Nat) → Members → Nat → Step Value
  | 0, _, _, i => faultBehind .endInObject i
  | fuel + 1, levels, members, i =>
    let i := skipSpace src i
    match byteAt src i with
    | none => faultAhead src .endInObject i
    | some b =>
      if b == 125 then .ok (.object members.reverse, i + 1)
      else if !members.isEmpty && b != 44 then faultAhead src .expectedCommaOrBrace i
      else
        let k := if members.isEmpty then i else skipSpace src (i + 1)
        match byteAt src k with
        | none => faultAhead src .endInValue k
        | some 34 =>
          match readString src ByteArray.empty (k + 1) with
          | .error fault => .error fault
          | .ok (key, stop) =>
            let colon := skipSpace src stop
            match byteAt src colon with
            | none => faultAhead src .endInObject colon
            | some 58 =>
              match readValue src fuel levels (colon + 1) with
              | .error fault => .error fault
              | .ok (value, stop) =>
                readMembers src fuel levels (addMember members key value) stop
            | some _ => faultAhead src .expectedColon colon
        | some 125 => faultAhead src .trailingComma k
        | some _ => faultAhead src .keyNotString k

end

/-! ## Documents -/

/-- Line and column of the place behind the first `offset` bytes. -/
def lineAndColumn (src : ByteArray) (offset : Nat) : Nat × Nat :=
  let rec walk (i line column : Nat) : Nat → Nat × Nat
    | 0 => (line, column)
    | left + 1 =>
      match byteAt src i with
      | some 10 => walk (i + 1) (line + 1) 0 left
      | some _ => walk (i + 1) line (column + 1) left
      | none => (line, column)
  walk 0 1 0 offset

/-- The levels of nesting that a document may use, one more than it can open. -/
def documentLevels : Nat := 128

namespace Value

/-- The value of the document whose bytes are `src`, with faults as offsets. -/
def ofBytes (levels : Nat) (src : ByteArray) : Except Fault Value := do
  let (value, stop) ← readValue src (2 * src.size + 2) levels 0
  let i := skipSpace src stop
  if i < src.size then faultAhead src .trailingCharacters i else return value

/-- The value of a whole document. -/
def ofText (levels : Nat) (text : String) : Except ReadError Value :=
  let src := text.toUTF8
  match ofBytes levels src with
  | .ok value => .ok value
  | .error fault =>
    let (line, column) := lineAndColumn src fault.offset
    .error { cause := fault.cause, line := line, column := column }

end Value

end TreeToCpp.Json
