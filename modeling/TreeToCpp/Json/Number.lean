import TreeToCpp.Decimal.Shortest

/-!
# Numbers of a JSON document

A document's number is kept as one of three things. A whole number that fits 64 bits stays whole,
without a sign or with one; everything else is a floating-point value of 64 bits, kept as its bit
pattern, so that equality of numbers is equality of what is written.

The text of a floating-point value is its shortest decimal. It is positional while the exponent of
the first digit is between -5 and 15 and always shows a digit on both sides of the point;
otherwise it is scientific, with a sign in front of the exponent.

## Main definitions

* `Number` — a number of a document
* `Number.text` — how a number is written
-/

namespace TreeToCpp.Json

/-- The number of negative whole numbers that fit 64 bits. -/
abbrev negativeCount : Nat := 0x8000000000000000

/-- A number of a JSON document. -/
inductive Number where
  /-- A whole number from zero on. -/
  | natural (value : UInt64)
  /-- The whole number `-(predecessor + 1)`. -/
  | negative (predecessor : Fin negativeCount)
  /-- A finite floating-point value, as its bit pattern. -/
  | real (bits : UInt64)
  deriving DecidableEq, Repr

namespace Number

/-- The value of a number that is whole and not negative. -/
def natural? : Number → Option Nat
  | .natural value => some value.toNat
  | _ => none

/-- A run of zeros. -/
def zeros (count : Nat) : String :=
  String.ofList (List.replicate count '0')

/-- The least exponent of the first digit at which a value is written positionally. -/
def leastPositional : Int := -5

/-- The greatest exponent of the first digit at which a value is written positionally. -/
def greatestPositional : Int := 15

/-- Digits with a point behind the first `whole` of them; a missing fraction is a single zero. -/
def pointed (digits : List Char) (whole : Nat) : String :=
  let fraction := digits.drop whole
  String.ofList (digits.take whole) ++ "." ++
    (if fraction.isEmpty then "0" else String.ofList fraction)

/-- The text of the exponent of a scientific form. -/
def exponentText (exponent : Int) : String :=
  (if exponent < 0 then "e-" else "e+") ++ toString exponent.natAbs

/-- The text of the positive decimal `coefficient * 10 ^ scale`. -/
def decimalText (coefficient : Nat) (scale : Int) : String :=
  let digits := Nat.toDigits 10 coefficient
  let exponent := (digits.length : Int) - 1 + scale
  if exponent < leastPositional || greatestPositional < exponent then
    match digits with
    | [digit] => String.singleton digit ++ exponentText exponent
    | _ => pointed digits 1 ++ exponentText exponent
  else if exponent < 0 then
    "0." ++ zeros (-exponent - 1).toNat ++ String.ofList digits
  else
    pointed (digits ++ List.replicate scale.toNat '0') (exponent.toNat + 1)

/-- The text of a finite floating-point value. -/
def realText (bits : UInt64) : String :=
  let binary := Decimal.Binary.ofBits bits
  (if bits ≥ 0x8000000000000000 then "-" else "") ++
    (if binary.mantissa = 0 then "0.0"
     else
      let (coefficient, scale) := binary.shortest
      decimalText coefficient scale)

/-- How a number is written. -/
def text : Number → String
  | .natural value => toString value.toNat
  | .negative predecessor => "-" ++ toString (predecessor.val + 1)
  | .real bits => realText bits

theorem isDigit_of_mem_toString {n : Nat} {c : Char} (h : c ∈ (toString n).toList) :
    c.isDigit = true := by
  have htext : (toString n).toList = Nat.toDigits 10 n := Nat.toList_repr
  rw [htext] at h
  exact Nat.isDigit_of_mem_toDigits (by decide) (by decide) h

/-- A point and a zero are all that a point among digits may add to them. -/
theorem forall_mem_pointed {p : Char → Prop} {digits : List Char} (hdigits : ∀ c ∈ digits, p c)
    (hpoint : p '.') (hzero : p '0') (whole : Nat) : ∀ c ∈ (pointed digits whole).toList, p c := by
  intro c hc
  simp only [pointed, String.toList_append, String.toList_ofList, List.mem_append] at hc
  obtain (hc | hc) | hc := hc
  · exact hdigits c (List.mem_of_mem_take hc)
  · obtain rfl : c = '.' := by simpa using hc
    exact hpoint
  · split at hc
    · obtain rfl : c = '0' := by simpa using hc
      exact hzero
    · exact hdigits c (List.mem_of_mem_drop (by simpa using hc))

end Number

end TreeToCpp.Json
