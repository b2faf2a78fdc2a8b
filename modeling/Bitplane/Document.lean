/-! # Documents

A document is a tree of values, as a data format spells it, and its records are
read field by field. A record stands either as a table, which names its fields,
or as a list of them in their order.
-/

namespace Bitplane

inductive Document where
  | null
  | bool (value : Bool)
  | int (value : Int)
  | real (value : Float)
  | text (value : String)
  /-- A value that cannot be kept: a text that no characters make up, by half of a
  surrogate pair or by stray bytes, a table with such a name, or a number past the
  range of double precision. -/
  | illFormed
  | list (items : List Document)
  | table (members : List (String × Document))

namespace Document

def natBelow? (limit : Nat) : Document → Option Nat
  | .int n => if 0 ≤ n ∧ n < limit then some n.toNat else none
  | _ => none

/-- A number of bytes or an offset, below 2^64. -/
def size? : Document → Option Nat := natBelow? 0x10000000000000000

def byte? (d : Document) : Option UInt8 := (d.natBelow? 256).map UInt8.ofNat

def text? : Document → Option String
  | .text s => some s
  | _ => none

mutual

/-- Whether a document can be kept as it is: nothing in it is ill formed, and no more
than `room` lists and tables lie inside each other. -/
def isSound (room : Nat) : Document → Bool
  | .null | .bool _ | .int _ | .real _ | .text _ => true
  | .illFormed => false
  | .list items => 0 < room && itemsSound (room - 1) items
  | .table members => 0 < room && membersSound (room - 1) members

def itemsSound (room : Nat) : List Document → Bool
  | [] => true
  | d :: rest => isSound room d && itemsSound room rest

def membersSound (room : Nat) : List (String × Document) → Bool
  | [] => true
  | (_, d) :: rest => isSound room d && membersSound room rest

end

def listOf? (read : Document → Option α) : Document → Option (List α)
  | .list items => items.mapM read
  | _ => none

def orNull? (read : Document → Option α) : Document → Option (Option α)
  | .null => some none
  | d => (read d).map some

/-- The only member with a name: `none` if there are several. -/
def uniqueMember? (members : List (String × Document)) (name : String) : Option (Option Document) :=
  match members.filter (·.1 == name) with
  | [] => some none
  | [(_, d)] => some (some d)
  | _ => none

/-- The fields of a record in the order of `names`, each of which may be missing.
A table may hold other members too but no field twice; a list holds the first
fields and no more. -/
def fields? (names : List String) : Document → Option (List (Option Document))
  | .table members => names.mapM (uniqueMember? members)
  | .list items =>
    if items.length ≤ names.length then
      some (items.map some ++ List.replicate (names.length - items.length) none)
    else none
  | _ => none

structure Reading where
  byte? : Document → Option UInt8
  size? : Document → Option Nat
  text? : Document → Option String
  /-- The fields of a record in the order of their names. -/
  fields? : List String → Document → Option (List (Option Document))
  /-- Whether a value can be kept until it is known what it stands for. -/
  keeps : Document → Bool

/-- Every value has to be spelled as what it is. A value is kept inside the lists and
tables around it, so it has less room than a whole document. -/
def Reading.strict : Reading where
  byte? := Document.byte?
  size? := Document.size?
  text? := Document.text?
  fields? := Document.fields?
  keeps := isSound 126

def required? (read : Document → Option α) (field : Option Document) : Option α :=
  field.bind read

def orDefault? (read : Document → Option α) (default : α) : Option Document → Option α
  | none => some default
  | some d => read d

end Document

end Bitplane
