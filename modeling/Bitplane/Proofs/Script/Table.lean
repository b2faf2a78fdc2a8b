import Bitplane.Script.Packed

/-! # Tables of offsets

A table spells offsets below 65536, two bytes each. Reading and writing are inverse to
each other on tables of even length.
-/

namespace Bitplane

theorem wordBytes_wordOf (high low : UInt8) : wordBytes (wordOf high low) = [high, low] := by
  have := high.toNat_lt
  have := low.toNat_lt
  simp only [wordBytes, wordOf, List.cons.injEq, and_true, ← UInt8.toNat_inj, UInt8.toNat_ofNat']
  omega

theorem getElem?_bytePairs (bytes : List UInt8) {i : Nat} (h : i < bytes.length / 2) :
    (bytePairs bytes)[i]? = some (bytes.getD (2 * i) 0, bytes.getD (2 * i + 1) 0) := by
  fun_induction bytePairs bytes generalizing i with
  | case1 a b rest ih =>
    cases i with
    | zero => rfl
    | succ i =>
      rw [List.getElem?_cons_succ, ih (by simp only [List.length_cons] at h; omega)]
      rfl
  | case2 bytes hshort =>
    rcases bytes with _ | ⟨a, _ | ⟨b, rest⟩⟩
    · simp at h
    · simp at h
    · exact absurd rfl (hshort a b rest)

namespace Script

variable {table : Bytes} {offsets : List Nat} {bytes : List UInt8}

theorem tableBytes_eq_ok_iff :
    tableBytes offsets = .ok bytes ↔
      (∀ o ∈ offsets, o < 65536) ∧ bytes = offsets.flatMap wordBytes := by
  unfold tableBytes
  cases h : offsets.find? (65536 ≤ ·) with
  | none => simpa [eq_comm] using fun _ => by simpa using h
  | some offset =>
    have hle : 65536 ≤ offset := by simpa using List.find?_some h
    simp only [reduceCtorEq, false_iff]
    exact fun hall => absurd (hall.1 offset (List.mem_of_find?_eq_some h)) (Nat.not_lt.mpr hle)

@[simp] theorem size_readTable (table : Bytes) : (readTable table).size = table.size / 2 := by
  simp [readTable]

theorem toList_readTable (table : Bytes) :
    (readTable table).toList = (bytePairs table.toList).map fun (high, low) => wordOf high low := by
  refine List.ext_getElem? fun i => ?_
  by_cases hi : i < table.size / 2
  · rw [List.getElem?_map, getElem?_bytePairs _ hi]
    simp [readTable, hi]
  · rw [List.getElem?_eq_none (by simpa using hi),
      List.getElem?_eq_none (by simpa [length_bytePairs] using hi)]

theorem readTable_lt (table : Bytes) : ∀ o ∈ readTable table, o < 65536 := by
  intro o ho
  obtain ⟨i, rfl⟩ := Array.mem_ofFn.mp ho
  exact wordOf_lt ..

@[simp] theorem length_flatMap_wordBytes (offsets : List Nat) :
    (offsets.flatMap wordBytes).length = 2 * offsets.length := by
  induction offsets with
  | nil => rfl
  | cons o rest ih =>
    simp only [List.flatMap_cons, List.length_append, ih, List.length_cons, wordBytes,
      List.length_nil]
    omega

theorem readTable_flatMap_wordBytes (h : ∀ o ∈ offsets, o < 65536) :
    readTable (offsets.flatMap wordBytes).toArray = offsets.toArray := by
  have hpairs : offsets.flatMap wordBytes =
      (offsets.map fun o => (UInt8.ofNat (o / 256), UInt8.ofNat o)).flatMap
        fun (a, b) => [a, b] := by
    rw [List.flatMap_map]
    rfl
  refine Array.toList_inj.mp ?_
  rw [toList_readTable, hpairs, List.toList_toArray, bytePairs_flatMap, List.map_map]
  exact (List.map_congr_left fun o ho => wordOf_wordBytes (h o ho)).trans (List.map_id _)

theorem flatMap_wordBytes_readTable (h : table.size % 2 = 0) :
    (readTable table).toList.flatMap wordBytes = table.toList := by
  rw [toList_readTable, List.flatMap_map]
  simp only [wordBytes_wordOf]
  exact flatMap_bytePairs h

end Script

end Bitplane
