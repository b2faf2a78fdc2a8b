/-! # Numerals

Numbers written to a least width: hexadecimal with its `0x` mark, bare
hexadecimal, binary, and decimal padded by zeros or blanks.
-/

namespace Bitplane.Text

def padLeft (fill : Char) (width : Nat) (cs : List Char) : List Char :=
  List.replicate (width - cs.length) fill ++ cs

/-- `0x` and at least `width` lower-case hexadecimal digits. -/
def hex (width n : Nat) : String :=
  "0x" ++ String.ofList (padLeft '0' width (Nat.toDigits 16 n))

def byteDigits (byte : UInt8) : List Char :=
  padLeft '0' 2 (Nat.toDigits 16 byte.toNat)

/-- A digit between `a` and `f` as its capital. -/
def capital (c : Char) : Char := c.toUpper

def byteCapitals (byte : UInt8) : String :=
  String.ofList ((byteDigits byte).map capital)

def byteBits (byte : UInt8) : String :=
  String.ofList (padLeft '0' 8 (Nat.toDigits 2 byte.toNat))

def zeroPadded (width n : Nat) : String :=
  String.ofList (padLeft '0' width (Nat.toDigits 10 n))

def blankPadded (width n : Nat) : String :=
  String.ofList (padLeft ' ' width (Nat.toDigits 10 n))

def hexBytes (data : Array UInt8) : String :=
  String.ofList (data.toList.flatMap byteDigits)

def hexValue? (c : Char) : Option Nat :=
  if '0' ≤ c ∧ c ≤ '9' then some (c.toNat - '0'.toNat)
  else if 'a' ≤ c ∧ c ≤ 'f' then some (c.toNat - 'a'.toNat + 10)
  else if 'A' ≤ c ∧ c ≤ 'F' then some (c.toNat - 'A'.toNat + 10)
  else none

def isDigit (c : Char) : Bool := '0' ≤ c && c ≤ '9'

/-- The number that a text of decimal digits spells; it has at least one. -/
def decimal? (cs : List Char) : Option Nat :=
  if cs.isEmpty || !cs.all isDigit then none else some (Nat.ofDigitChars 10 cs 0)

/-- A number below 2^64 in decimal, with an optional plus sign. -/
def size? (cs : List Char) : Option Nat :=
  (decimal? (if cs.head? = some '+' then cs.drop 1 else cs)).filter (· < 0x10000000000000000)

/-- A sign in front of a number, and whether it is a minus. -/
def splitSign : List Char → Bool × List Char
  | '-' :: rest => (true, rest)
  | '+' :: rest => (false, rest)
  | cs => (false, cs)

/-- The number behind an exponent mark, whose digits `digits?` reads; zero if there is
no mark. -/
def power? (digits? : List Char → Option Nat) : List Char → Option Int
  | [] => some 0
  | mark :: rest =>
    if mark != 'e' && mark != 'E' then none
    else
      let (down, digits) := splitSign rest
      (digits? digits).map fun n => if down then -n else n

end Bitplane.Text
