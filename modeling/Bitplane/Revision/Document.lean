import Bitplane.Document.Json.Reader
import Bitplane.Document.Json.Writer
import Bitplane.Revision

/-! # Revisions as documents

The fields of a revision have fixed names and a fixed order. The tweens, the
ignored commands and the draw limit may be left out.
-/

namespace Bitplane

open Document

def byteDocument (b : UInt8) : Document := .int b.toNat

namespace TweenCommand

def fieldNames : List String := ["command", "plane"]

def ofDocument? (r : Reading) (d : Document) : Option TweenCommand :=
  match r.fields? fieldNames d with
  | some [command, plane] => do return ⟨← required? r.byte? command, ← required? r.byte? plane⟩
  | _ => none

def document (t : TweenCommand) : Document :=
  .table [("command", byteDocument t.command), ("plane", byteDocument t.plane)]

end TweenCommand

namespace IgnoredCommand

def fieldNames : List String := ["command", "payload"]

def ofDocument? (r : Reading) (d : Document) : Option IgnoredCommand :=
  match r.fields? fieldNames d with
  | some [command, payload] => do
    return ⟨← required? r.byte? command, ← required? r.size? payload⟩
  | _ => none

def document (c : IgnoredCommand) : Document :=
  .table [("command", byteDocument c.command), ("payload", .int c.payload)]

end IgnoredCommand

namespace UnknownPolicy

/-- A policy from its name and what else is given: a table may hold more than the
policy uses, a list may not. -/
def ofParts? (policy : String) (bytes : Option Document) (isList : Bool) : Option UnknownPolicy :=
  match policy with
  | "skip" => (required? size? bytes).map .skip
  | "abort" => if isList && bytes.isSome then none else some .abort
  | _ => none

/-- A policy is a table with a `policy` and its fields, or a list that starts with it.
What it holds is kept until its name is known, and is spelled as what it is. -/
def ofDocument? (r : Reading) (d : Document) : Option UnknownPolicy :=
  if !r.keeps d then none
  else match d with
    | .table members => do
      let some (.text policy) ← uniqueMember? members "policy" | none
      if policy = "abort" then return .abort
      ofParts? policy (← uniqueMember? members "bytes") false
    | .list [.text policy] => ofParts? policy none true
    | .list [.text policy, bytes] => ofParts? policy (some bytes) true
    | _ => none

def document : UnknownPolicy → Document
  | .skip bytes => .table [("policy", .text "skip"), ("bytes", .int bytes)]
  | .abort => .table [("policy", .text "abort")]

end UnknownPolicy

namespace Revision

def fieldNames : List String :=
  ["name", "plane_count", "polygon_base", "plane_map", "tweens", "ignored", "unknown",
    "max_draws_per_frame"]

def ofDocument? (r : Reading) (d : Document) : Option Revision :=
  match r.fields? fieldNames d with
  | some [name, planeCount, base, planeMap, tweens, ignored, unknown, maxDraws] => do
    return {
      name := ← required? r.text? name
      planeCount := ← required? r.size? planeCount
      polygonBase := ← required? r.byte? base
      planeMap := ← required? (listOf? r.byte?) planeMap
      tweens := ← orDefault? (listOf? (TweenCommand.ofDocument? r)) [] tweens
      ignored := ← orDefault? (listOf? (IgnoredCommand.ofDocument? r)) [] ignored
      unknown := ← required? (UnknownPolicy.ofDocument? r) unknown
      maxDraws := ← orDefault? (orNull? r.byte?) none maxDraws }
  | _ => none

def document (r : Revision) : Document :=
  .table [
    ("name", .text r.name),
    ("plane_count", .int r.planeCount),
    ("polygon_base", byteDocument r.polygonBase),
    ("plane_map", .list (r.planeMap.map byteDocument)),
    ("tweens", .list (r.tweens.map TweenCommand.document)),
    ("ignored", .list (r.ignored.map IgnoredCommand.document)),
    ("unknown", r.unknown.document),
    ("max_draws_per_frame", (r.maxDraws.map byteDocument).getD .null)]

def ofJson (data : Bytes) : Except Fault Revision :=
  Json.read data (fun d => (ofDocument? .strict d).elim (.error (.document none)) .ok)
    (.document none)

def json (r : Revision) : String := Json.compact r.document

end Revision

end Bitplane
