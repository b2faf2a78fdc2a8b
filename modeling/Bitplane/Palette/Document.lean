import Bitplane.Document.Json.Reader
import Bitplane.Document.Json.Writer
import Bitplane.Palette

/-! # Palettes as documents

A palette is a record with one field, its colors, and a color a record of four
bytes. A document may list more colors than a palette is made with.
-/

namespace Bitplane

open Document

namespace Color

def fieldNames : List String := ["r", "g", "b", "a"]

def ofDocument? (d : Document) : Option Color :=
  match d.fields? fieldNames with
  | some [r, g, b, a] => do
    return ⟨← required? byte? r, ← required? byte? g, ← required? byte? b, ← required? byte? a⟩
  | _ => none

def document (c : Color) : Document :=
  .table [("r", .int c.r.toNat), ("g", .int c.g.toNat), ("b", .int c.b.toNat),
    ("a", .int c.a.toNat)]

def json (c : Color) : String := Json.compact c.document

end Color

namespace Palette

def ofDocument? (d : Document) : Option Palette :=
  match d.fields? ["colors"] with
  | some [colors] => (required? (listOf? Color.ofDocument?) colors).map Palette.mk
  | _ => none

def document (p : Palette) : Document := .table [("colors", .list (p.colors.map Color.document))]

def ofJson (data : Bytes) : Except Fault Palette :=
  Json.read data (fun d => (ofDocument? d).elim (.error (.document none)) .ok) (.document none)

def json (p : Palette) : String := Json.compact p.document

end Palette

end Bitplane
