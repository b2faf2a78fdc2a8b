import Bitplane.Document
import Bitplane.Text.Numeral

/-! # Key paths

A key path leads from a document to a part of it, by the names of members and the
positions of items: `a.b[2].c`. Settings lie over a document at the parts that
their names lead to; what is missing on the way is made.
-/

namespace Bitplane.Document

inductive PathStep where
  | member (name : String)
  /-- An item, counted from the end if the position is negative. -/
  | item (position : Int)
  deriving DecidableEq, Repr

abbrev KeyPath := List PathStep

/-! ## Spelling -/

namespace KeyPath

def isNameChar (c : Char) : Bool := c.isAlphanum || c == '_' || c == '-'

def skipBlanks (cs : List Char) : List Char := cs.dropWhile fun c => c == ' ' || c == '\t'

def name? (cs : List Char) : Option (PathStep × List Char) :=
  let name := cs.takeWhile isNameChar
  if name.isEmpty then none else some (.member (String.ofList name), cs.dropWhile isNameChar)

def position? (cs : List Char) : Option (PathStep × List Char) := do
  let cs := skipBlanks cs
  let negative := cs.head? == some '-'
  let cs := if negative then cs.drop 1 else cs
  let n ← Text.decimal? (cs.takeWhile Text.isDigit)
  let value : Int := if negative then -n else n
  match skipBlanks (cs.dropWhile Text.isDigit) with
  | ']' :: rest =>
    if -0x8000000000000000 ≤ value ∧ value < 0x8000000000000000 then some (.item value, rest)
    else none
  | _ => none

/-- The steps behind a first name. Each takes up one `fuel`. -/
def steps? : (fuel : Nat) → List Char → Option KeyPath
  | _, [] => some []
  | 0, _ :: _ => none
  | fuel + 1, c :: rest => do
    let (step, rest) ← if c = '.' then name? rest else if c = '[' then position? rest else none
    return step :: (← steps? fuel rest)

/-- The path that a text spells: it starts with a name. -/
def spelled? (cs : List Char) : Option KeyPath := do
  let (first, rest) ← name? cs
  return first :: (← steps? rest.length rest)

/-- The path that a setting's name stands for: if it spells none, the name itself. -/
def ofName (name : String) : KeyPath := (spelled? name.toList).getD [.member name]

end KeyPath

/-! ## Changing parts -/

def membersOf : Document → List (String × Document)
  | .table members => members
  | _ => []

def itemsOf : Document → List Document
  | .list items => items
  | _ => []

/-- Members with one of them changed; a missing one is nothing at first. -/
def changeMember (name : String) (change : Document → Document) :
    List (String × Document) → List (String × Document)
  | [] => [(name, change .null)]
  | (n, d) :: rest =>
    if n == name then (n, change d) :: rest else (n, d) :: changeMember name change rest

/-- Items made to reach a position, filled up with nothing at the end that it lies
beyond, and the position counted from the start. -/
def reach (items : List Document) (position : Int) : List Document × Nat :=
  let fromStart := items.length + position
  if 0 ≤ position then
    (items ++ List.replicate (position.toNat + 1 - items.length) .null, position.toNat)
  else if 0 ≤ fromStart then (items, fromStart.toNat)
  else (List.replicate fromStart.natAbs .null ++ items, 0)

/-- A document with the part at the end of a path changed. What is no table or no list
where the path needs one is replaced by an empty one. -/
def changeAt : KeyPath → (change : Document → Document) → Document → Document
  | [], change, d => change d
  | .member name :: path, change, d =>
    .table (changeMember name (changeAt path change) d.membersOf)
  | .item position :: path, change, d =>
    let (items, n) := reach d.itemsOf position
    .list (items.modify n (changeAt path change))

/-! ## Layers -/

mutual

/-- A document laid over another: tables are laid over each other member by member,
all else takes the place of what was there. -/
def laidOver : (top base : Document) → Document
  | .table members, base => .table (membersOver members base.membersOf)
  | top, _ => top

def membersOver : (members base : List (String × Document)) → List (String × Document)
  | [], base => base
  | (name, d) :: rest, base => membersOver rest (changeMember name (laidOver d) base)

end

/-- Values by names that may spell paths. -/
abbrev Settings := List (String × Document)

def withSettings (base : Document) (settings : Settings) : Document :=
  settings.foldl (fun d (name, value) => changeAt (.ofName name) (laidOver value) d) base

end Bitplane.Document
