/-! # Durations

A span of time in whole nanoseconds, shown in the largest unit that it fills.
-/

namespace Bitplane

structure Duration where
  nanos : Nat
  deriving DecidableEq, Repr

namespace Duration

def ofMillis (millis : Nat) : Duration := ⟨millis * 1000000⟩

def ofParts (seconds nanos : Nat) : Duration := ⟨seconds * 1000000000 + nanos⟩

/-- The digits behind the point for `rest` out of `unit`, without zeros at the end. -/
def fraction (rest unit : Nat) : List Char :=
  let width := (Nat.toDigits 10 unit).length - 1
  let digits := Nat.toDigits 10 rest
  ((List.replicate (width - digits.length) '0' ++ digits).reverse.dropWhile (· == '0')).reverse

def inUnit (nanos unit : Nat) (name : String) : String :=
  let behind := fraction (nanos % unit) unit
  toString (nanos / unit) ++ (if behind.isEmpty then "" else "." ++ String.ofList behind) ++ name

def text (d : Duration) : String :=
  if 1000000000 ≤ d.nanos then inUnit d.nanos 1000000000 "s"
  else if 1000000 ≤ d.nanos then inUnit d.nanos 1000000 "ms"
  else if 1000 ≤ d.nanos then inUnit d.nanos 1000 "µs"
  else inUnit d.nanos 1 "ns"

end Duration

end Bitplane
