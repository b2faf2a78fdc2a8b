import Bitplane.Document.Json.Reader
import Bitplane.Document.Json.Writer
import Bitplane.Script

/-! # Scripts as documents

A script is a record of its frame offsets and its stream, both lists of whole
numbers. A document that spells an inconsistent script is refused with the
script's own fault.
-/

namespace Bitplane.Script

open Document

def fieldNames : List String := ["indices", "data"]

def ofDocument (d : Document) : Except Fault Script :=
  let parts := match d.fields? fieldNames with
    | some [offsets, data] => do
      return (← required? (listOf? size?) offsets, ← required? (listOf? byte?) data)
    | _ => none
  match parts with
  | none => .error (.document none)
  | some (offsets, data) =>
    (ofParts offsets.toArray data.toArray).mapError fun fault => .document (some fault)

def document (s : Script) : Document :=
  .table [
    ("indices", .list (s.offsets.toList.map fun (o : Nat) => .int o)),
    ("data", .list (s.data.toList.map fun b => .int b.toNat))]

def ofJson (data : Bytes) : Except Fault Script :=
  Json.read data ofDocument (.document none)

def json (s : Script) : String := Json.compact s.document

end Bitplane.Script
