import Bitplane.Decimal.Nearest
import Bitplane.Document
import Bitplane.Text.Numeral

/-! # Words

What a word of plain text stands for: a truth value, a whole number, any other
number, or itself.
-/

namespace Bitplane.Document

def lowerCase (cs : List Char) : String := String.ofList (cs.map Char.toLower)

/-- A whole number of 64 bits, in decimal with an optional sign. -/
def wholeWord? (cs : List Char) : Option Document := do
  let (negative, digits) := Text.splitSign cs
  let n ← Text.decimal? digits
  let value : Int := if negative then -n else n
  if -0x8000000000000000 ≤ value ∧ value < 0x8000000000000000 then return .int value else none

/-- A decimal number with an optional point and exponent and at least one digit. -/
def decimalWord? (cs : List Char) : Option Float := do
  let whole := cs.takeWhile Text.isDigit
  let rest := cs.dropWhile Text.isDigit
  let behind := if rest.head? = some '.' then (rest.drop 1).takeWhile Text.isDigit else []
  let rest := if rest.head? = some '.' then (rest.drop 1).dropWhile Text.isDigit else rest
  let digits ← Text.decimal? (whole ++ behind)
  let power ← Text.power? Text.decimal? rest
  return Decimal.nearest digits (power - behind.length)

/-- A double: a decimal number, infinity or what is no number, in letters of any case
and with an optional sign. -/
def realWord? (cs : List Char) : Option Document := do
  let (negative, cs) := Text.splitSign cs
  let name := lowerCase cs
  let magnitude ←
    if name = "inf" ∨ name = "infinity" then some (1 / 0)
    else if name = "nan" then some (0 / 0)
    else decimalWord? cs
  return .real (if negative then -magnitude else magnitude)

def ofWord (word : String) : Document :=
  let cs := word.toList
  if lowerCase cs = "true" then .bool true
  else if lowerCase cs = "false" then .bool false
  else ((wholeWord? cs).or (realWord? cs)).getD (.text word)

end Bitplane.Document
