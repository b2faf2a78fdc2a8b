import Bitplane.Script

/-! # Binary containers

The packed container is a frame count, the table of frame offsets and the
stream in one string; the split container keeps the table and the stream apart.
Counts and offsets have two bytes, high byte first, and offsets count from the
start of the stream.
-/

namespace Bitplane.Script

def readTable (table : Bytes) : Array Nat :=
  Array.ofFn fun i : Fin (table.size / 2) =>
    wordOf (table.getD (2 * i) 0) (table.getD (2 * i + 1) 0)

/-- The table of offsets below 65536. -/
def tableBytes (offsets : List Nat) : Except ScriptFault (List UInt8) :=
  match offsets.find? (65536 ≤ ·) with
  | some offset => .error (.offsetTooLarge offset)
  | none => .ok (offsets.flatMap wordBytes)

def ofPacked (bytes : Bytes) : Except Fault Script :=
  match bytes.slice? 0 2 with
  | none => .error (.frame (.unexpectedEnd 0 2))
  | some count =>
    let size := 2 * wordOf (count.getD 0 0) (count.getD 1 0)
    match bytes.slice? 2 size with
    | none => .error (.frame (.unexpectedEnd 2 size))
    | some table =>
      (ofParts (readTable table) (bytes.extract (2 + size) bytes.size)).mapError .script

def packed (s : Script) : Except ScriptFault Bytes := do
  if 65536 ≤ s.frameCount then throw (.frameCount s.frameCount)
  let table ← tableBytes s.offsets.toList
  return (wordBytes s.frameCount ++ table).toArray ++ s.data

def ofSplit (table data : Bytes) : Except ScriptFault Script :=
  if table.size % 2 = 0 then ofParts (readTable table) data
  else .error (.oddTable table.size)

def split (s : Script) : Except ScriptFault (Bytes × Bytes) := do
  return ((← tableBytes s.offsets.toList).toArray, s.data)

end Bitplane.Script
