import Bitplane.Text.Numeral

/-! # The shortest decimal

The decimal number with the fewest digits that a double is the nearest one to,
and its text: without an exponent, and with a point only if digits stand behind
it.
-/

namespace Bitplane.Decimal

/-- A positive double as `mantissa * 2 ^ exponent`. -/
structure Binary where
  mantissa : Nat
  exponent : Int
  /-- Whether the next smaller double is only half as far away as the next greater one. -/
  isLowest : Bool

/-- The parts of a double that is neither zero nor negative nor infinite. -/
def Binary.ofFloat (x : Float) : Binary :=
  let bits := x.toBits.toNat
  let field : Nat := bits / 0x10000000000000 % 2048
  let fraction := bits % 0x10000000000000
  if field = 0 then ⟨fraction, -1074, false⟩
  else ⟨fraction + 0x10000000000000, (field : Int) - 1075, fraction == 0 && field != 1⟩

/-- The numbers that round to a double, as numerators over one denominator. -/
structure Neighbourhood where
  low : Nat
  middle : Nat
  high : Nat
  denominator : Nat
  /-- Whether the ends belong to it. -/
  isClosed : Bool

/-- The neighbourhood of a double, in units of `10 ^ place`. The ends lie halfway to
the next doubles and round to the even one. -/
def Binary.neighbourhood (b : Binary) (place : Int) : Neighbourhood :=
  let unit := Nat.pow 2 (b.exponent - 2).toNat * Nat.pow 10 (-place).toNat
  ⟨(4 * b.mantissa - if b.isLowest then 1 else 2) * unit, 4 * b.mantissa * unit,
    (4 * b.mantissa + 2) * unit, Nat.pow 2 (2 - b.exponent).toNat * Nat.pow 10 place.toNat,
    b.mantissa % 2 == 0⟩

/-- The whole number in a neighbourhood that is nearest to its middle; of two that are
equally near the greater one. -/
def Neighbourhood.whole? (n : Neighbourhood) : Option Nat :=
  let below := n.middle / n.denominator
  let fits (k : Nat) : Bool :=
    let value := k * n.denominator
    if n.isClosed then n.low ≤ value && value ≤ n.high else n.low < value && value < n.high
  let closer := if 2 * (n.middle % n.denominator) < n.denominator then below else below + 1
  if fits closer then some closer
  else [below, below + 1].find? fits

/-- The digits of a double and the place of the last one, tried from `place` down. -/
def Binary.search (b : Binary) : (fuel : Nat) → (place : Int) → Nat × Int
  | 0, place => (0, place)
  | fuel + 1, place =>
    match (b.neighbourhood place).whole? with
    | some digits => (digits, place)
    | none => b.search fuel (place - 1)

/-- A place that no multiple fits at unless it is the last one: that of the first
digit, or one above it. -/
def Binary.firstPlace (b : Binary) : Int :=
  (b.mantissa.log2 + b.exponent + 1) * 30103 / 100000 + 1

/-- The shortest digits of a positive double, as a whole number, and the place of the
last one. Seventeen digits are always enough. -/
def shortest (x : Float) : Nat × Int :=
  let b := Binary.ofFloat x
  b.search 20 b.firstPlace

def positional (digits : Nat) (place : Int) : String :=
  let cs := Nat.toDigits 10 digits
  if 0 ≤ place then String.ofList (cs ++ List.replicate place.toNat '0')
  else
    let behind := (-place).toNat
    let cs := Text.padLeft '0' (behind + 1) cs
    String.ofList (cs.take (cs.length - behind) ++ '.' :: cs.drop (cs.length - behind))

/-- The text of a double. What is no number has no sign; zero may have one. -/
def text (x : Float) : String :=
  let magnitude := x.abs
  let spelled :=
    if magnitude.isInf then "inf"
    else if magnitude == 0 then "0"
    else positional (shortest magnitude).1 (shortest magnitude).2
  if x.isNaN then "NaN" else if x.toBits >>> 63 == 1 then "-" ++ spelled else spelled

end Bitplane.Decimal
