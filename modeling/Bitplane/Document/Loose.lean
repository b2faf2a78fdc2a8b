import Bitplane.Decimal.Shortest
import Bitplane.Document.Word

/-! # Loose documents

Settings come from several places and may spell a value as another kind of scalar
than the one that is wanted: a number as a text, a truth value as a number, a
number as a name.
-/

namespace Bitplane.Document

/-! ## Loose scalars -/

/-- A double brought to the nearest whole number below 2^64; halves go away from zero. -/
def roundedSize (x : Float) : Nat := x.round.toUInt64.toNat

/-- A whole number, or what passes for one. -/
def looseSize? : Document → Option Nat
  | .int n => if 0 ≤ n then some n.toNat else none
  | .real x => some (roundedSize x)
  | .bool b => some b.toNat
  | .text s =>
    let lower := lowerCase s.toList
    if ["true", "on", "yes"].contains lower then some 1
    else if ["false", "off", "no"].contains lower then some 0
    else Text.size? s.toList
  | _ => none

def looseByte? (d : Document) : Option UInt8 :=
  ((looseSize? d).filter (· < 256)).map UInt8.ofNat

def looseText? : Document → Option String
  | .text s => some s
  | .bool b => some (if b then "true" else "false")
  | .int n => some (toString n)
  | .real x => some (Decimal.text x)
  | _ => none

/-- The fields of a record; a list may go on behind them. -/
def looseFields? (names : List String) : Document → Option (List (Option Document))
  | .list items => fields? names (.list (items.take names.length))
  | d => fields? names d

/-- Scalars may be spelled as scalars of another kind, and all can be kept. -/
def Reading.loose : Reading where
  byte? := looseByte?
  size? := looseSize?
  text? := looseText?
  fields? := looseFields?
  keeps _ := true

/-! ## Repeated names -/

mutual

/-- A document in which no table has two members of one name: the last of them counts. -/
def withoutRepeats : Document → Document
  | .list items => .list (itemsWithoutRepeats items)
  | .table members => .table (membersWithoutRepeats members)
  | d => d

def itemsWithoutRepeats : List Document → List Document
  | [] => []
  | d :: rest => withoutRepeats d :: itemsWithoutRepeats rest

def membersWithoutRepeats : List (String × Document) → List (String × Document)
  | [] => []
  | (name, d) :: rest =>
    if rest.any (·.1 == name) then membersWithoutRepeats rest
    else (name, withoutRepeats d) :: membersWithoutRepeats rest

end

end Bitplane.Document
