/-!
# Shortest decimals

A binary floating-point value stands for every real number that rounds to it. Among the decimals
in that interval one is written: it lies on the coarsest power of ten that has a multiple there,
and it is the multiple closest to the value. A value that is exactly halfway between two such
multiples takes the even one.

Everything is exact arithmetic on natural numbers. The value is `m * 2 ^ q`, and its interval
reaches half a unit of `2 ^ q` up and half a unit down, a quarter when `m` is the least mantissa
of its binade. The ends belong to the interval exactly when `m` is even, because a tie between two
floating-point neighbours goes to the even mantissa.

## Main definitions

* `Binary` — a positive value `m * 2 ^ q` and the interval that rounds to it
* `Binary.ofBits` — the magnitude that a pattern of 64 bits stands for
* `Binary.shortest` — the decimal that is written, as a coefficient and a power of ten
-/

namespace TreeToCpp.Decimal

/-- A positive binary value together with the shape of the interval that rounds to it. -/
structure Binary where
  /-- The mantissa. -/
  mantissa : Nat
  /-- The power of two that the mantissa is multiplied by. -/
  exponent : Int
  /-- Whether the neighbour below is only half as far away as the neighbour above. -/
  narrowBelow : Bool
  deriving DecidableEq, Repr

namespace Binary

/-- The power of two that begins behind the 52 stored bits of the mantissa. -/
def leadingOne : Nat := 0x10000000000000

/-- The number of values of the exponent field. -/
def exponentCount : Nat := 0x800

/-- The magnitude of a finite value of 64 bits: one sign bit, eleven bits of exponent and 52 of
mantissa. A zero exponent field means that there is no leading one bit. -/
def ofBits (bits : UInt64) : Binary :=
  let field : Nat := (bits.toNat / leadingOne) % exponentCount
  let fraction : Nat := bits.toNat % leadingOne
  if field = 0 then
    { mantissa := fraction, exponent := -1074, narrowBelow := false }
  else
    { mantissa := fraction + leadingOne
      exponent := (field : Int) - 1075
      narrowBelow := fraction = 0 && field ≠ 1 }

/-- Numerator and denominator of `(quarters / 4) * 2 ^ exponent / 10 ^ k`. -/
def onGrid (b : Binary) (quarters : Nat) (k : Int) : Nat × Nat :=
  let e := b.exponent - 2
  (quarters * Nat.pow 2 e.toNat * Nat.pow 10 (-k).toNat,
    Nat.pow 2 (-e).toNat * Nat.pow 10 k.toNat)

/-- Whether `c * 10 ^ k` rounds to the value. -/
def covers (b : Binary) (c : Nat) (k : Int) : Bool :=
  let (low, den) := b.onGrid (4 * b.mantissa - (if b.narrowBelow then 1 else 2)) k
  let (high, _) := b.onGrid (4 * b.mantissa + 2) k
  if b.mantissa % 2 = 0 then low ≤ c * den && c * den ≤ high
  else low < c * den && c * den < high

/-- The closest multiple of `10 ^ k` that rounds to the value, if there is one. Only the two
multiples next to the value can be that. -/
def closest? (b : Binary) (k : Int) : Option Nat :=
  let (num, den) := b.onGrid (4 * b.mantissa) k
  let below := num / den
  let twice := 2 * (num % den)
  let upper := twice > den || (twice = den && below % 2 = 1)
  match b.covers below k, b.covers (below + 1) k with
  | true, true => some (if upper then below + 1 else below)
  | true, false => some below
  | false, true => some (below + 1)
  | false, false => none

/-- The coarsest power of ten that is tried. It is above the whole interval: the value is below
`2 ^ (log2 mantissa + 1 + exponent)`, and 0.30103 is just above the decimal logarithm of two. -/
def coarsest (b : Binary) : Int :=
  ((b.mantissa.log2 : Int) + 1 + b.exponent) * 30103 / 100000 + 1

/-- The finest power of ten that is tried; every finite value of 64 bits has a decimal there. -/
def finest : Int := -325

/-- The shortest decimal of the value: a coefficient and the power of ten it is multiplied by. -/
def shortest (b : Binary) : Nat × Int :=
  ((List.range (b.coarsest - finest + 1).toNat).findSome? fun (step : Nat) =>
    let k := b.coarsest - (step : Int)
    (b.closest? k).map (·, k)).getD (0, 0)

end Binary

end TreeToCpp.Decimal
