import Bitplane.Proofs.Json.Document
import Bitplane.Proofs.Options
import Bitplane.Script.Document

/-! # Scripts as documents read back

A script is read from the document it is written as, if all of its offsets have 64 bits;
and no script is read whose offsets have not.
-/

namespace Bitplane

namespace Document

variable {α : Type} {read : Document → Option α} {spell : α → Document} {as : List α}

theorem listOf?_map (h : ∀ a ∈ as, read (spell a) = some a) :
    listOf? read (.list (as.map spell)) = some as := by
  rw [listOf?, List.mapM_map]
  exact (mapM_eq_some_map (k := id) h).trans (by rw [List.map_id])

theorem byte?_int (b : UInt8) : (Document.int b.toNat).byte? = some b := by
  have := b.toNat_lt
  simp [byte?, natBelow?]
  omega

theorem isExact_byte (b : UInt8) : (Document.int b.toNat).IsExact := by
  have := b.toNat_lt
  exact .int (by omega) (by omega)

theorem size?_int {n : Nat} (h : n < 0x10000000000000000) : (Document.int n).size? = some n := by
  simp [size?, natBelow?]
  omega

theorem size?_lt {d : Document} {n : Nat} (h : d.size? = some n) : n < 0x10000000000000000 := by
  cases d with
  | int i =>
    simp only [size?, natBelow?] at h
    split at h
    · simp at h
      omega
    · simp at h
  | _ => simp [size?, natBelow?] at h

theorem fields?_table_iff {members : List (String × Document)} {first second : String}
    {a b : Option Document} :
    fields? [first, second] (.table members) = some [a, b] ↔
      uniqueMember? members first = some a ∧ uniqueMember? members second = some b := by
  simp only [fields?, List.mapM_cons, List.mapM_nil, bind, Option.bind_eq_some_iff, pure,
    Option.some.injEq]
  constructor
  · rintro ⟨_, hfirst, _, ⟨_, hsecond, _, rfl, rfl⟩, h⟩
    cases h
    exact ⟨hfirst, hsecond⟩
  · rintro ⟨hfirst, hsecond⟩
    exact ⟨a, hfirst, [b], ⟨b, hsecond, [], rfl, rfl⟩, rfl⟩

theorem fields?_list_iff {items : List Document} {first second : String} {a b : Document} :
    fields? [first, second] (.list items) = some [some a, some b] ↔ items = [a, b] := by
  rcases items with _ | ⟨_, _ | ⟨_, _ | ⟨_, _⟩⟩⟩ <;> simp [fields?]

end Document

namespace Script

open Document

variable {s : Script} {d : Document} {data : Bytes}

theorem ofDocument_eq_ok_iff : ofDocument d = .ok s ↔ ∃ offsets data,
    d.fields? fieldNames = some [offsets, data] ∧
      required? (listOf? size?) offsets = some s.offsets.toList ∧
      required? (listOf? byte?) data = some s.data.toList := by
  unfold ofDocument
  constructor
  · intro h
    split at h
    case h_2 => simp at h
    case h_1 offsets data hfields =>
      cases hoffsets : required? (listOf? size?) offsets with
      | none => simp [hoffsets] at h
      | some os =>
        cases hdata : required? (listOf? byte?) data with
        | none => simp [hoffsets, hdata] at h
        | some bytes =>
          simp only [hoffsets, hdata, Option.bind_eq_bind, Option.bind_some, pure,
            mapError_eq_ok_iff, ofParts_eq_ok_iff] at h
          exact ⟨offsets, data, hfields, by simp [hoffsets, h.1], by simp [hdata, h.2]⟩
  · rintro ⟨offsets, data, hfields, hoffsets, hdata⟩
    simp only [hfields, hoffsets, hdata, Option.bind_eq_bind, Option.bind_some, pure,
      mapError_eq_ok_iff, ofParts_eq_ok_iff, Array.toArray_toList, and_self]

theorem isExact_document (h : ∀ o ∈ s.offsets, o < 0x10000000000000000) : s.document.IsExact := by
  refine .cons (.list (List.forall_mem_map.mpr fun o ho => ?_))
    (.cons (.list (List.forall_mem_map.mpr fun b _ => isExact_byte b)) .nil)
  have := h o (Array.mem_toList_iff.mp ho)
  exact .int (by omega) (by omega)

theorem ofDocument_document (h : ∀ o ∈ s.offsets, o < 0x10000000000000000) :
    ofDocument s.document = .ok s := by
  refine ofDocument_eq_ok_iff.mpr ⟨some (.list (s.offsets.toList.map fun (o : Nat) => .int o)),
    some (.list (s.data.toList.map fun b => .int b.toNat)), ?fields, ?offsets, ?data⟩
  case fields => simp [document, fields?, fieldNames, uniqueMember?]
  case offsets => exact listOf?_map fun o ho => size?_int (h o (Array.mem_toList_iff.mp ho))
  case data => exact listOf?_map fun b _ => byte?_int b

def listText (numbers : List Nat) : String := ",".intercalate (numbers.map toString)

theorem compactChars_numbers (numbers : List Nat) :
    Json.compactChars (.list (numbers.map fun (n : Nat) => .int n)) =
      '[' :: (listText numbers).toList ++ [']'] := by
  have hspelled : (String.toList ∘ toString : Nat → List Char) =
      Json.compactChars ∘ fun (n : Nat) => .int n := by
    funext n
    exact String.toList_ofList
  rw [Json.compactChars, Json.compactItems_eq_intercalate, listText, String.toList_intercalate,
    List.map_map, List.map_map, hspelled]
  rfl

theorem json_eq (s : Script) : s.json =
    "\x7b\"indices\":[" ++ listText s.offsets.toList ++ "],\"data\":[" ++
      listText (s.data.toList.map UInt8.toNat) ++ "]\x7d" := by
  have hdata : (s.data.toList.map fun b => Document.int b.toNat) =
      (s.data.toList.map UInt8.toNat).map fun (n : Nat) => .int n := by
    rw [List.map_map]
    rfl
  refine String.toList_inj.mp ?_
  rw [json, Json.compact, String.toList_ofList, document, hdata, Json.compactChars,
    Json.compactMembers, Json.compactMembers, compactChars_numbers, compactChars_numbers]
  · simp [Json.textChars, Json.textChar]
  · simp

theorem ofJson_json (h : ∀ o ∈ s.offsets, o < 0x10000000000000000) :
    ofJson (Text.toBytes s.json) = .ok s :=
  (Json.read_compact (isExact_document h) _ _).trans (ofDocument_document h)

theorem offset_lt_of_ofJson (h : ofJson data = .ok s) :
    ∀ o ∈ s.offsets, o < 0x10000000000000000 := by
  obtain ⟨d, hd⟩ := Json.exists_of_read h
  obtain ⟨offsets, -, -, hoffsets, -⟩ := ofDocument_eq_ok_iff.mp hd
  rw [required?, Option.bind_eq_some_iff] at hoffsets
  obtain ⟨list, -, hlist⟩ := hoffsets
  cases list with
  | list items =>
    intro o ho
    obtain ⟨item, -, hitem⟩ := exists_of_mem_mapM hlist (Array.mem_toList_iff.mpr ho)
    exact size?_lt hitem
  | _ => simp [listOf?] at hlist

end Script

end Bitplane
