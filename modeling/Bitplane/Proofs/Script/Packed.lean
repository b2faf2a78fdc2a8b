import Bitplane.Proofs.Bytes
import Bitplane.Proofs.Script.Table

/-! # The packed container

Packed strings and scripts whose count and offsets have two bytes stand for each other:
what is read from a string is written as that string, and what is written reads back.
-/

namespace Bitplane

theorem Bytes.getD_extract (data : Bytes) {start stop i : Nat} (h : start + i < stop) :
    (data.extract start stop).getD i 0 = data.getD (start + i) 0 := by
  rw [Array.getD_eq_getD_getElem?, Array.getD_eq_getD_getElem?, Array.getElem?_extract]
  split
  case isTrue => rfl
  case isFalse hi => rw [Array.getElem?_eq_none (by omega)]

namespace Script

def packedCount (bytes : Bytes) : Nat := wordOf (bytes.getD 0 0) (bytes.getD 1 0)

def packedOffset (bytes : Bytes) (frame : Nat) : Nat :=
  wordOf (bytes.getD (2 + 2 * frame) 0) (bytes.getD (3 + 2 * frame) 0)

section Reading

variable {bytes : Bytes} {s : Script}

theorem wordOf_extract (bytes : Bytes) :
    wordOf ((bytes.extract 0 2).getD 0 0) ((bytes.extract 0 2).getD 1 0) = packedCount bytes := by
  rw [bytes.getD_extract (by decide), bytes.getD_extract (by decide)]
  rfl

theorem ofPacked_of_le (h : 2 + 2 * packedCount bytes ≤ bytes.size) : ofPacked bytes =
    (ofParts (readTable (bytes.extract 2 (2 + 2 * packedCount bytes)))
      (bytes.extract (2 + 2 * packedCount bytes) bytes.size)).mapError .script := by
  have hcount : bytes.slice? 0 2 = some (bytes.extract 0 2) :=
    Bytes.slice?_eq_some_iff.mpr ⟨by omega, rfl⟩
  have htable : bytes.slice? 2 (2 * packedCount bytes) =
      some (bytes.extract 2 (2 + 2 * packedCount bytes)) :=
    Bytes.slice?_eq_some_iff.mpr ⟨h, rfl⟩
  simp only [ofPacked, hcount, wordOf_extract, htable]

theorem le_of_ofPacked (h : ofPacked bytes = .ok s) :
    2 + 2 * packedCount bytes ≤ bytes.size := by
  unfold ofPacked at h
  cases hcount : bytes.slice? 0 2 with
  | none => simp [hcount] at h
  | some count =>
    obtain ⟨-, rfl⟩ := Bytes.slice?_eq_some_iff.mp hcount
    simp only [hcount, Nat.zero_add, wordOf_extract] at h
    cases htable : bytes.slice? 2 (2 * packedCount bytes) with
    | none => simp [htable] at h
    | some table => exact (Bytes.slice?_eq_some_iff.mp htable).1

theorem ofPacked_eq_ok_iff : ofPacked bytes = .ok s ↔ 2 + 2 * packedCount bytes ≤ bytes.size ∧
    s.offsets = readTable (bytes.extract 2 (2 + 2 * packedCount bytes)) ∧
    s.data = bytes.extract (2 + 2 * packedCount bytes) bytes.size := by
  constructor
  · intro h
    have hle := le_of_ofPacked h
    rw [ofPacked_of_le hle, mapError_eq_ok_iff, ofParts_eq_ok_iff] at h
    exact ⟨hle, h⟩
  · rintro ⟨hle, h⟩
    rw [ofPacked_of_le hle, mapError_eq_ok_iff, ofParts_eq_ok_iff]
    exact h

theorem mem_readTable_extract (hle : 2 + 2 * packedCount bytes ≤ bytes.size) {o : Nat} :
    o ∈ readTable (bytes.extract 2 (2 + 2 * packedCount bytes)) ↔
      ∃ frame < packedCount bytes, packedOffset bytes frame = o := by
  have hsize : (bytes.extract 2 (2 + 2 * packedCount bytes)).size / 2 = packedCount bytes := by
    rw [Array.size_extract, Nat.min_eq_left hle]
    omega
  have hoffset {frame : Nat} (h : frame < packedCount bytes) :
      wordOf ((bytes.extract 2 (2 + 2 * packedCount bytes)).getD (2 * frame) 0)
        ((bytes.extract 2 (2 + 2 * packedCount bytes)).getD (2 * frame + 1) 0) =
      packedOffset bytes frame := by
    rw [bytes.getD_extract (by omega), bytes.getD_extract (by omega), packedOffset]
    congr 2
    omega
  rw [readTable, Array.mem_ofFn]
  constructor
  · rintro ⟨frame, rfl⟩
    have hlt : frame.val < packedCount bytes := Nat.lt_of_lt_of_eq frame.isLt hsize
    exact ⟨frame, hlt, (hoffset hlt).symm⟩
  · rintro ⟨frame, hlt, rfl⟩
    exact ⟨⟨frame, Nat.lt_of_lt_of_eq hlt hsize.symm⟩, hoffset hlt⟩

theorem exists_ofPacked_iff : (∃ s, ofPacked bytes = .ok s) ↔
    2 ≤ bytes.size ∧ 2 + 2 * packedCount bytes ≤ bytes.size ∧
      ∀ frame < packedCount bytes,
        packedOffset bytes frame < bytes.size - 2 - 2 * packedCount bytes := by
  have hparts : (∃ s, ofPacked bytes = .ok s) ↔ 2 + 2 * packedCount bytes ≤ bytes.size ∧
      ∃ s, ofParts (readTable (bytes.extract 2 (2 + 2 * packedCount bytes)))
        (bytes.extract (2 + 2 * packedCount bytes) bytes.size) = .ok s := by
    simp only [ofPacked_eq_ok_iff, ofParts_eq_ok_iff, exists_and_left]
  have hsize : (bytes.extract (2 + 2 * packedCount bytes) bytes.size).size =
      bytes.size - 2 - 2 * packedCount bytes := by
    rw [Array.size_extract, Nat.min_self, Nat.sub_sub]
  rw [hparts, exists_ofParts_iff, hsize]
  constructor
  · rintro ⟨hle, hlt⟩
    refine ⟨by omega, hle, fun frame hframe => hlt _ ?_⟩
    exact (mem_readTable_extract hle).mpr ⟨frame, hframe, rfl⟩
  · rintro ⟨-, hle, hlt⟩
    refine ⟨hle, fun o ho => ?_⟩
    obtain ⟨frame, hframe, rfl⟩ := (mem_readTable_extract hle).mp ho
    exact hlt frame hframe

theorem packedCount_of_holds {count : Nat} (hcount : count < 65536)
    (h : bytes.Holds 0 (wordBytes count)) : packedCount bytes = count := by
  rw [packedCount, Array.getD_eq_getD_getElem?, Array.getD_eq_getD_getElem?, h.head, h.tail.head]
  exact wordOf_wordBytes hcount

theorem ofPacked_of_parts {table data : Bytes} {count : Nat} (hcount : count < 65536)
    (hsize : table.size = 2 * count)
    (hbytes : bytes.toList = wordBytes count ++ table.toList ++ data.toList) :
    ofPacked bytes = (ofParts (readTable table) data).mapError .script := by
  have hall : bytes.Holds 0 (wordBytes count ++ table.toList ++ data.toList) :=
    ⟨[], [], by simp [hbytes], rfl⟩
  have hlength : table.toList.length = 2 * count := hsize
  have htotal : bytes.size = 2 + 2 * count + data.size := by
    rw [← Array.length_toList, hbytes, List.length_append, List.length_append, hlength]
    rfl
  have htable : bytes.Holds 2 table.toList := hall.left.right
  have hdata : bytes.Holds (2 + 2 * count) data.toList := by
    have hright := hall.right
    rw [List.length_append, hlength, Nat.zero_add] at hright
    exact hright
  obtain ⟨-, htable⟩ := Bytes.slice?_eq_some_iff.mp htable.slice?
  obtain ⟨-, hdata⟩ := Bytes.slice?_eq_some_iff.mp hdata.slice?
  rw [hlength, Array.toArray_toList] at htable
  rw [Array.length_toList, ← htotal, Array.toArray_toList] at hdata
  have hpacked := packedCount_of_holds hcount hall.left.left
  rw [ofPacked_of_le (by omega), hpacked, ← htable, ← hdata]

end Reading

section Writing

variable {bytes : Bytes} {s : Script}

theorem packed_eq : s.packed =
    if 65536 ≤ s.frameCount then .error (.frameCount s.frameCount)
    else (tableBytes s.offsets.toList).map fun table =>
      (wordBytes s.frameCount ++ table).toArray ++ s.data := by
  unfold packed
  split <;> rfl

theorem packed_eq_ok_iff : s.packed = .ok bytes ↔
    s.frameCount < 65536 ∧ (∀ o ∈ s.offsets, o < 65536) ∧
      bytes.toList = wordBytes s.frameCount ++ s.offsets.toList.flatMap wordBytes ++
        s.data.toList := by
  rw [packed_eq]
  by_cases hcount : 65536 ≤ s.frameCount
  · simp [hcount, Nat.not_lt.mpr hcount]
  · rw [if_neg hcount]
    cases htable : tableBytes s.offsets.toList with
    | error fault =>
      have hlarge : ¬∀ o ∈ s.offsets, o < 65536 := fun h => by
        rw [tableBytes_eq_ok_iff.mpr ⟨by simpa using h, rfl⟩] at htable
        simp at htable
      simp [Except.map, hlarge]
    | ok table =>
      obtain ⟨hsmall, rfl⟩ := tableBytes_eq_ok_iff.mp htable
      rw [Except.map, Except.ok.injEq, ← Array.toList_inj]
      simp only [Array.mem_toList_iff] at hsmall
      simp [Nat.lt_of_not_le hcount, eq_comm]
      exact fun _ => hsmall

theorem exists_packed_iff : (∃ bytes, s.packed = .ok bytes) ↔
    s.frameCount ≤ 65535 ∧ ∀ o ∈ s.offsets, o ≤ 65535 := by
  simp only [packed_eq_ok_iff, ← Nat.lt_succ_iff]
  constructor
  · rintro ⟨bytes, hcount, hoffsets, -⟩
    exact ⟨hcount, hoffsets⟩
  · rintro ⟨hcount, hoffsets⟩
    exact ⟨_, hcount, hoffsets, (List.toList_toArray ..)⟩

theorem wordBytes_packedCount (h : 2 ≤ bytes.size) :
    wordBytes (packedCount bytes) = (bytes.extract 0 2).toList := by
  rw [packedCount, wordBytes_wordOf]
  obtain ⟨l⟩ := bytes
  match l with
  | [] | [_] => simp at h
  | a :: b :: rest => simp

theorem packed_of_ofPacked (h : ofPacked bytes = .ok s) : s.packed = .ok bytes := by
  obtain ⟨hle, hoffsets, hdata⟩ := ofPacked_eq_ok_iff.mp h
  have hsize : (bytes.extract 2 (2 + 2 * packedCount bytes)).size = 2 * packedCount bytes := by
    rw [Array.size_extract, Nat.min_eq_left hle]
    omega
  have hcount : s.frameCount = packedCount bytes := by
    rw [frameCount, hoffsets, size_readTable, hsize]
    omega
  have hparts : bytes.extract 0 2 ++ bytes.extract 2 (2 + 2 * packedCount bytes) ++
      bytes.extract (2 + 2 * packedCount bytes) bytes.size = bytes := by
    rw [Array.extract_append_extract, Nat.min_eq_left (Nat.zero_le _),
      Nat.max_eq_right (Nat.le_add_right ..), Array.extract_append_extract,
      Nat.min_eq_left (Nat.zero_le _), Nat.max_eq_right hle, Array.extract_size]
  refine packed_eq_ok_iff.mpr ⟨hcount ▸ wordOf_lt .., hoffsets ▸ readTable_lt _, ?_⟩
  rw [hcount, hoffsets, hdata, flatMap_wordBytes_readTable (by omega),
    wordBytes_packedCount (by omega), ← Array.toList_append, ← Array.toList_append, hparts]

theorem size_of_packed (h : s.packed = .ok bytes) :
    bytes.size = 2 + 2 * s.frameCount + s.data.size := by
  obtain ⟨-, -, hbytes⟩ := packed_eq_ok_iff.mp h
  rw [← Array.length_toList, hbytes, List.length_append, List.length_append,
    length_flatMap_wordBytes]
  rfl

theorem ofPacked_of_packed (h : s.packed = .ok bytes) : ofPacked bytes = .ok s := by
  obtain ⟨hcount, hoffsets, hbytes⟩ := packed_eq_ok_iff.mp h
  have hsize : (s.offsets.toList.flatMap wordBytes).toArray.size = 2 * s.frameCount :=
    length_flatMap_wordBytes _
  rw [ofPacked_of_parts hcount hsize hbytes, mapError_eq_ok_iff, ofParts_eq_ok_iff,
    readTable_flatMap_wordBytes (by simpa using hoffsets)]
  exact ⟨rfl, rfl⟩

/-- Reading and writing packed strings are inverse to each other, and each succeeds exactly
within the bounds of two-byte counts and offsets. -/
theorem packed_stands_for_script (bytes : Bytes) (s : Script) :
    (ofPacked bytes = .ok s ↔ s.packed = .ok bytes) ∧
    ((∃ t, ofPacked bytes = .ok t) ↔
      2 ≤ bytes.size ∧ 2 + 2 * packedCount bytes ≤ bytes.size ∧
        ∀ frame < packedCount bytes,
          packedOffset bytes frame < bytes.size - 2 - 2 * packedCount bytes) ∧
    ((∃ out, s.packed = .ok out) ↔ s.frameCount ≤ 65535 ∧ ∀ o ∈ s.offsets, o ≤ 65535) :=
  ⟨⟨packed_of_ofPacked, ofPacked_of_packed⟩, exists_ofPacked_iff, exists_packed_iff⟩

end Writing

end Script

end Bitplane
