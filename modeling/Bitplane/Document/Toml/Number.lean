import Bitplane.Decimal.Nearest
import Bitplane.Document
import Bitplane.Text.Numeral

/-! # Numbers in TOML

Whole numbers in four bases, doubles, truth values. Underscores may stand between
digits.
-/

namespace Bitplane.Document.Toml

open Text

/-- Digits of a base with underscores between them. -/
def digitsOf? (base : Nat) (cs : List Char) : Option Nat :=
  let bare := cs.filter (· != '_')
  if bare.isEmpty || cs.head? == some '_' || cs.getLast? == some '_' then none
  else bare.foldlM (fun n c => do
    let d ← hexValue? c
    if d < base then some (n * base + d) else none) 0

def isDigitOrLine (c : Char) : Bool := isDigit c || c == '_'

def decimal? (cs : List Char) : Option Document := do
  let (negative, cs) := splitSign cs
  let whole := cs.takeWhile isDigitOrLine
  let rest := cs.dropWhile isDigitOrLine
  let n ← digitsOf? 10 whole
  if whole.head? = some '0' && 1 < whole.length then none
  if rest.isEmpty then return .int (if negative then -n else n)
  let behind := if rest.head? = some '.' then (rest.drop 1).takeWhile isDigitOrLine else []
  if rest.head? = some '.' && behind.isEmpty then none
  let fraction := behind.filter (· != '_')
  let power ← power? (digitsOf? 10) (if behind.isEmpty then rest else rest.drop (behind.length + 1))
  let digits := n * Nat.pow 10 fraction.length + Nat.ofDigitChars 10 fraction 0
  let magnitude := Decimal.nearest digits (power - fraction.length)
  return .real (if negative then -magnitude else magnitude)

/-- A number that has a name, without its sign. -/
def namedNumber? (cs : List Char) : Option Float :=
  if cs = "inf".toList then some (1 / 0)
  else if cs = "nan".toList then some (0 / 0)
  else none

def word? (cs : List Char) : Option Document :=
  let (negative, bare) := splitSign cs
  if cs = "true".toList then some (.bool true)
  else if cs = "false".toList then some (.bool false)
  else match namedNumber? bare with
    | some x => some (.real (if negative then -x else x))
    | none => match cs with
      | '0' :: 'x' :: ds => (digitsOf? 16 ds).map fun n => .int n
      | '0' :: 'o' :: ds => (digitsOf? 8 ds).map fun n => .int n
      | '0' :: 'b' :: ds => (digitsOf? 2 ds).map fun n => .int n
      | cs => decimal? cs

end Bitplane.Document.Toml
