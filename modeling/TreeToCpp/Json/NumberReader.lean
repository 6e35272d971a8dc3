import TreeToCpp.Json.Bytes
import TreeToCpp.Json.Number
import TreeToCpp.Json.ReadError

/-!
# Reading a number

A number keeps as many digits as fit 64 bits. Whole digits beyond that count as a power of ten,
further digits of the fraction are dropped. A number with a fraction or an exponent, or one that
does not fit, becomes a floating-point value by one multiplication or by divisions of the kept
digits; it is not always the closest one.

## Main definitions

* `Number.keepDigits` — the digits that fit
* `Number.scale` — a power of ten applied to the kept digits
* `Number.read` — the number at a position
-/

namespace TreeToCpp.Json

namespace Number

/-- The greatest significand that is kept. -/
def greatestSignificand : Nat := 0xFFFFFFFFFFFFFFFF

/-- Takes digits while the significand made of them fits 64 bits. -/
def keepDigits (src : ByteArray) (significand i : Nat) : Nat × Nat :=
  if h : i < src.size then
    if isDigit src[i] then
      let longer := significand * 10 + digitValue src[i]
      if longer ≤ greatestSignificand then keepDigits src longer (i + 1) else (significand, i)
    else (significand, i)
  else (significand, i)
termination_by src.size - i

/-- The greatest exponent that a document may write out. -/
def greatestExponent : Nat := 0x7FFFFFFF

/-- Takes the digits of an exponent. An exponent that is too large is given as `none`, at the
position behind the digit that makes it so. -/
def takeExponent (src : ByteArray) (exponent i : Nat) : Option Nat × Nat :=
  if h : i < src.size then
    if isDigit src[i] then
      let larger := exponent * 10 + digitValue src[i]
      if larger ≤ greatestExponent then takeExponent src larger (i + 1) else (none, i + 1)
    else (some exponent, i)
  else (some exponent, i)
termination_by src.size - i

/-- The power of ten closest to `10 ^ k`. -/
def powerOfTen (k : Nat) : Float :=
  Float.ofScientific 1 false k

/-- The greatest power of ten that is a finite floating-point value. -/
def greatestPower : Nat := 308

/-- The value `f * 10 ^ exponent`, or nothing when it is too large. -/
def scale (f : Float) (exponent : Int) : Option Float :=
  if exponent.natAbs ≤ greatestPower then
    if 0 ≤ exponent then
      let scaled := f * powerOfTen exponent.natAbs
      if scaled.isInf then none else some scaled
    else some (f / powerOfTen exponent.natAbs)
  else if f == 0 then some f
  else if _h : 0 ≤ exponent then none
  else scale (f / powerOfTen greatestPower) (exponent + greatestPower)
termination_by (-exponent).toNat
decreasing_by simp only [greatestPower] at *; omega

/-- A floating-point value with its sign, which is put on last. -/
def signed (isNegative : Bool) (f : Float) : Number :=
  .real (if isNegative then -f else f).toBits

/-- A whole number that fits 64 bits, as it is kept. -/
def ofSignificand (isNegative : Bool) (significand : Nat) : Number :=
  if isNegative then
    if h : 0 < significand ∧ significand ≤ negativeCount then
      .negative ⟨significand - 1, by omega⟩
    else signed true (UInt64.ofNat significand).toFloat
  else .natural (UInt64.ofNat significand)

/-- The value of a number with a fraction or an exponent, or of one that does not fit 64 bits. -/
def ofParts (isNegative : Bool) (significand : Nat) (exponent : Int) (i : Nat) : Step Number :=
  match scale (UInt64.ofNat significand).toFloat exponent with
  | some f => .ok (signed isNegative f, i)
  | none => faultBehind .numberOutOfRange i

/-- The exponent behind its letter. -/
def readExponent (src : ByteArray) (isNegative : Bool) (significand : Nat) (exponent : Int)
    (i : Nat) : Step Number :=
  let (downward, start) :=
    match byteAt src i with
    | some 43 => (false, i + 1)
    | some 45 => (true, i + 1)
    | _ => (false, i)
  match byteAt src start with
  | none => faultBehind .endInValue start
  | some b =>
    if isDigit b then
      match takeExponent src 0 start with
      | (some written, stop) =>
        ofParts isNegative significand
          (if downward then exponent - written else exponent + written) stop
      | (none, stop) =>
        if significand ≠ 0 && !downward then faultBehind .numberOutOfRange stop
        else .ok (signed isNegative 0, skipDigits src stop)
    else faultBehind .invalidNumber (start + 1)

/-- Whether a byte begins an exponent. -/
def isExponentMark (b : UInt8) : Bool :=
  b == 101 || b == 69

/-- The fraction behind its point. -/
def readFraction (src : ByteArray) (isNegative : Bool) (significand : Nat) (exponent : Int)
    (i : Nat) : Step Number :=
  let (kept, stop) := keepDigits src significand i
  let fractionEnd := skipDigits src stop
  if fractionEnd = i then
    match byteAt src i with
    | none => faultAhead src .endInValue i
    | some _ => faultAhead src .invalidNumber i
  else
    let scaled := exponent - (stop - i : Nat)
    match byteAt src fractionEnd with
    | some b =>
      if isExponentMark b then readExponent src isNegative kept scaled (fractionEnd + 1)
      else ofParts isNegative kept scaled fractionEnd
    | none => ofParts isNegative kept scaled fractionEnd

/-- What follows the whole digits of a number. `dropped` counts the digits that did not fit. -/
def readTail (src : ByteArray) (isNegative : Bool) (significand dropped i : Nat) : Step Number :=
  let whole :=
    if dropped = 0 then .ok (ofSignificand isNegative significand, i)
    else ofParts isNegative significand dropped i
  match byteAt src i with
  | some b =>
    if b == 46 then readFraction src isNegative significand dropped (i + 1)
    else if isExponentMark b then readExponent src isNegative significand dropped (i + 1)
    else whole
  | none => whole

/-- A number behind its sign. -/
def read (src : ByteArray) (isNegative : Bool) (i : Nat) : Step Number :=
  match byteAt src i with
  | none => faultBehind .endInValue i
  | some 48 =>
    match byteAt src (i + 1) with
    | some b =>
      if isDigit b then faultAhead src .invalidNumber (i + 1)
      else readTail src isNegative 0 0 (i + 1)
    | none => readTail src isNegative 0 0 (i + 1)
  | some b =>
    if isDigit b then
      let (significand, stop) := keepDigits src (digitValue b) (i + 1)
      let wholeEnd := skipDigits src stop
      readTail src isNegative significand (wholeEnd - stop) wholeEnd
    else faultBehind .invalidNumber (i + 1)

end Number

end TreeToCpp.Json
