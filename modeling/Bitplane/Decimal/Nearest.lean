/-! # The nearest double

The double precision number nearest to a ratio or to a decimal number; halfway
between two of them the even one is taken, and past the greatest one infinity.
-/

namespace Bitplane.Decimal

/-- The whole number nearest to `a / b`; halves go to the even one. -/
def roundedQuotient (a b : Nat) : Nat :=
  let q := a / b
  if 2 * (a % b) < b ∨ (2 * (a % b) = b ∧ q % 2 = 0) then q else q + 1

/-- The least exponent of a double `m * 2 ^ e` with `m` below `2 ^ 53`. -/
def leastExponent : Int := -1074

def infiniteBits : Nat := 0x7FF0000000000000

/-- `a / (b * 2 ^ e)` as a ratio of two whole numbers. -/
def scaledRatio (a b : Nat) (e : Int) : Nat × Nat :=
  (a * Nat.pow 2 (-e).toNat, b * Nat.pow 2 e.toNat)

/-- The exponent that leaves 53 bits of `a / b` in front of the point, or the least one. -/
def exponentOfRatio (a b : Nat) : Int :=
  let e : Int := max (a.log2 - b.log2 - 53) leastExponent
  let (n, d) := scaledRatio a b e
  if n / d < 0x20000000000000 then e else e + 1

/-- The bits of the double nearest to `a / b`. A mantissa that is rounded up to
`2 ^ 53` carries into the exponent, which stands right above it. -/
def bitsOfRatio (a b : Nat) : Nat :=
  let e := exponentOfRatio a b
  let (n, d) := scaledRatio a b e
  min (roundedQuotient n d + (e - leastExponent).toNat * 0x10000000000000) infiniteBits

/-- The number of decimal digits that stand in front of the point, less those missing. -/
def places (digits : Nat) (exponent : Int) : Int := (Nat.toDigits 10 digits).length + exponent

def nearest (digits : Nat) (exponent : Int) : Float :=
  let bits :=
    if digits = 0 ∨ places digits exponent < -330 then 0
    else if 310 < places digits exponent then infiniteBits
    else bitsOfRatio (digits * Nat.pow 10 exponent.toNat) (Nat.pow 10 (-exponent).toNat)
  Float.ofBits (UInt64.ofNat bits)

end Bitplane.Decimal
