import Bitplane.Palette.Document
import Bitplane.Proofs.Script.Document

/-! # Palettes as documents read back

A palette is read from the document it is written as, with as many colors as it has.
-/

namespace Bitplane

open Document

namespace Color

theorem ofDocument?_document (c : Color) : ofDocument? c.document = some c := by
  have hfields : c.document.fields? fieldNames =
      some [some (.int c.r.toNat), some (.int c.g.toNat), some (.int c.b.toNat),
        some (.int c.a.toNat)] := by
    simp [document, fields?, fieldNames, uniqueMember?]
  simp [ofDocument?, hfields, required?, byte?_int]

theorem isExact_document (c : Color) : c.document.IsExact :=
  .cons (isExact_byte _) (.cons (isExact_byte _) (.cons (isExact_byte _)
    (.cons (isExact_byte _) .nil)))

end Color

namespace Palette

variable (p : Palette)

theorem ofDocument?_document : ofDocument? p.document = some p := by
  have hfields : p.document.fields? ["colors"] =
      some [some (.list (p.colors.map Color.document))] := by
    simp [document, fields?, uniqueMember?]
  have hcolors : listOf? Color.ofDocument? (.list (p.colors.map Color.document)) =
      some p.colors := listOf?_map fun c _ => c.ofDocument?_document
  simp [ofDocument?, hfields, required?, hcolors]

theorem isExact_document : p.document.IsExact :=
  .cons (.list (List.forall_mem_map.mpr fun c _ => c.isExact_document)) .nil

theorem ofJson_json : ofJson (Text.toBytes p.json) = .ok p := by
  rw [ofJson, json, Json.read_compact p.isExact_document, ofDocument?_document]
  rfl

end Palette

end Bitplane
