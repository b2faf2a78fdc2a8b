import Bitplane.Decimal.Nearest
import Bitplane.Document
import Bitplane.Text.Numeral

/-! # Numbers in JSON

Whole numbers of 64 bits are kept as they are. All others are doubles, and not
always the nearest ones: of their digits those count that fit into 64 bits, and
the double nearest to these is brought to its place by one multiplication or
division.
-/

namespace Bitplane.Document.Json

open Text

/-! ## Spelling -/

def digits? (cs : List Char) : Option (List Char × List Char) :=
  let found := cs.takeWhile isDigit
  if found.isEmpty then none else some (found, cs.dropWhile isDigit)

def fraction? : List Char → Option (Option (List Char) × List Char)
  | '.' :: rest => (digits? rest).map fun (ds, rest) => (some ds, rest)
  | cs => some (none, cs)

/-- The greatest exponent that is told from still greater ones. -/
def mostExponent : Nat := 0x80000000

/-- The exponent that digits spell, at most `mostExponent`. -/
def exponentOf (ds : List Char) : Nat :=
  ds.foldl (fun n c => min (n * 10 + (c.toNat - '0'.toNat)) mostExponent) 0

def exponent? (cs : List Char) : Option (Option Int × List Char) :=
  match cs with
  | 'e' :: rest | 'E' :: rest =>
    match rest with
    | '-' :: rest => (digits? rest).map fun (ds, rest) => (some (-exponentOf ds), rest)
    | '+' :: rest => (digits? rest).map fun (ds, rest) => (some (exponentOf ds), rest)
    | rest => (digits? rest).map fun (ds, rest) => (some (exponentOf ds), rest)
  | cs => some (none, cs)

/-! ## Value -/

/-- Digits behind those of `n`, as long as the number stays below 2^64, and the others. -/
def takeDigits (n : Nat) : List Char → Nat × List Char
  | [] => (n, [])
  | c :: rest =>
    let next := n * 10 + (c.toNat - '0'.toNat)
    if next < 0x10000000000000000 then takeDigits next rest else (n, c :: rest)

/-- The number that digits in front of a point and behind it spell, as a number below
2^64 and the power of ten it is brought to. -/
def significand (whole behind : List Char) : Nat × Int :=
  let (n, left) := takeDigits 0 whole
  let (n, dropped) := takeDigits n behind
  (n, left.length - (behind.length - dropped.length : Nat))

def mostPlaces : Int := 308

def tenTo (exponent : Int) : Float := Decimal.nearest 1 exponent

/-- A double brought to a power of ten, unless that is past the greatest double. -/
def scaled? (x : Float) (exponent : Int) : Option Float :=
  if x == 0 then some x
  else if mostPlaces < exponent then none
  else if 0 ≤ exponent then some (x * tenTo exponent) |>.filter (!·.isInf)
  else if -mostPlaces ≤ exponent then some (x / tenTo (-exponent))
  else if -2 * mostPlaces ≤ exponent then
    some (x / tenTo mostPlaces / tenTo (-exponent - mostPlaces))
  else some 0

def real (negative : Bool) (n : Nat) (exponent : Int) : Document :=
  match scaled? (Decimal.nearest n 0) exponent with
  | some x => .real (if negative then -x else x)
  | none => .illFormed

/-- A whole number; a negative zero and one that 64 bits do not hold are doubles. -/
def whole (negative : Bool) (digits : List Char) : Document :=
  let (n, exponent) := significand digits []
  let value : Int := if negative then -n else n
  if exponent = 0 ∧ -0x8000000000000000 ≤ value ∧ ¬(negative ∧ n = 0) then .int value
  else real negative n exponent

def magnitude? (negative : Bool) (cs : List Char) : Option (Document × List Char) := do
  let (digits, rest) ← digits? cs
  if digits.head? = some '0' && 1 < digits.length then none
  let (behind, rest) ← fraction? rest
  let (power, rest) ← exponent? rest
  match behind, power with
  | none, none => return (whole negative digits, rest)
  | _, _ =>
    let (n, exponent) := significand digits (behind.getD [])
    return (real negative n (exponent + power.getD 0), rest)

def number? : List Char → Option (Document × List Char)
  | '-' :: rest => magnitude? true rest
  | cs => magnitude? false cs

end Bitplane.Document.Json
