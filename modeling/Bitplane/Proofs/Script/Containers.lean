import Bitplane.Proofs.Script.File

/-! # Containers side by side

The packed and the split container keep the same table and the same stream, and a script
comes back from each of them, and from its JSON, whatever container it was in before.
-/

namespace Bitplane.Script

variable {s : Script} {table data : Bytes}

/-! ## Tables and streams apart -/

def tableOffset (table : Bytes) (frame : Nat) : Nat :=
  wordOf (table.getD (2 * frame) 0) (table.getD (2 * frame + 1) 0)

theorem mem_readTable {o : Nat} :
    o ∈ readTable table ↔ ∃ frame < table.size / 2, tableOffset table frame = o := by
  rw [readTable, Array.mem_ofFn]
  constructor
  · rintro ⟨frame, rfl⟩
    exact ⟨frame, frame.isLt, rfl⟩
  · rintro ⟨frame, hframe, rfl⟩
    exact ⟨⟨frame, hframe⟩, rfl⟩

theorem exists_ofSplit_iff : (∃ s, ofSplit table data = .ok s) ↔
    table.size % 2 = 0 ∧ ∀ frame < table.size / 2, tableOffset table frame < data.size := by
  have hparts : (∃ s, ofSplit table data = .ok s) ↔
      table.size % 2 = 0 ∧ ∃ s, ofParts (readTable table) data = .ok s := by
    simp only [ofSplit_eq_ok_iff, ofParts_eq_ok_iff, exists_and_left]
  rw [hparts, exists_ofParts_iff]
  simp only [mem_readTable, forall_exists_index, and_imp, forall_apply_eq_imp_iff₂]

theorem split_eq : s.split =
    (tableBytes s.offsets.toList).map fun table => (table.toArray, s.data) := rfl

theorem split_eq_ok_iff : s.split = .ok (table, data) ↔
    (∀ o ∈ s.offsets, o < 65536) ∧ table.toList = s.offsets.toList.flatMap wordBytes ∧
      data = s.data := by
  rw [split_eq]
  cases htable : tableBytes s.offsets.toList with
  | error fault =>
    simp only [Except.map, reduceCtorEq, false_iff]
    rintro ⟨hsmall, -⟩
    rw [tableBytes_eq_ok_iff.mpr ⟨by simpa using hsmall, rfl⟩] at htable
    cases htable
  | ok bytes =>
    obtain ⟨hsmall, rfl⟩ := tableBytes_eq_ok_iff.mp htable
    simp only [Array.mem_toList_iff] at hsmall
    rw [Except.map, Except.ok.injEq, Prod.mk.injEq, ← Array.toList_inj, eq_comm,
      eq_comm (a := s.data)]
    exact (and_iff_right hsmall).symm

theorem split_eq_ok_iff_ofSplit : s.split = .ok (table, data) ↔ ofSplit table data = .ok s := by
  rw [split_eq_ok_iff, ofSplit_eq_ok_iff]
  constructor
  · rintro ⟨hsmall, htable, rfl⟩
    refine ⟨?_, ?_, rfl⟩
    · rw [← Array.length_toList, htable, length_flatMap_wordBytes]
      exact Nat.mul_mod_right 2 _
    · rw [← table.toArray_toList, htable,
        readTable_flatMap_wordBytes (by simpa using hsmall)]
  · rintro ⟨heven, hoffsets, rfl⟩
    refine ⟨hoffsets ▸ readTable_lt table, ?_, rfl⟩
    rw [hoffsets, flatMap_wordBytes_readTable heven]

theorem packed_of_split (h : s.split = .ok (table, data)) (hcount : s.frameCount < 65536) :
    s.packed = .ok ((wordBytes s.frameCount).toArray ++ table ++ data) := by
  obtain ⟨hsmall, htable, rfl⟩ := split_eq_ok_iff.mp h
  refine packed_eq_ok_iff.mpr ⟨hcount, hsmall, ?_⟩
  rw [Array.toList_append, Array.toList_append, htable]

/-- A table and a stream are a script exactly if they are one behind their count. -/
theorem ofPacked_append_eq_ok_iff {count : Nat} (hcount : count < 65536)
    (hsize : table.size = 2 * count) :
    ofPacked ((wordBytes count).toArray ++ table ++ data) = .ok s ↔ ofSplit table data = .ok s := by
  have hbytes : ((wordBytes count).toArray ++ table ++ data).toList =
      wordBytes count ++ table.toList ++ data.toList := by
    rw [Array.toList_append, Array.toList_append]
  have heven : table.size % 2 = 0 := by omega
  rw [ofPacked_of_parts hcount hsize hbytes, mapError_eq_ok_iff, ofSplit, if_pos heven]

/-- Scripts whose offsets have two bytes are written apart and read back, and packed they are
the same bytes behind the frame count, if that has two bytes too. The other way round a
table and a stream make a script exactly if the table has no odd byte and all of its offsets
lie inside the stream, are written again as they were, and make the same script behind their
count. -/
theorem split_and_packed_hold_same_scripts :
    (∀ s : Script, (∀ o ∈ s.offsets, o ≤ 65535) → ∃ table,
      s.split = .ok (table, s.data) ∧ ofSplit table s.data = .ok s ∧
        (s.frameCount ≤ 65535 →
          s.packed = .ok ((wordBytes s.frameCount).toArray ++ table ++ s.data))) ∧
    ∀ table data : Bytes,
      ((∃ s, ofSplit table data = .ok s) ↔
        table.size % 2 = 0 ∧ ∀ frame < table.size / 2, tableOffset table frame < data.size) ∧
      (∀ s, ofSplit table data = .ok s → s.split = .ok (table, data)) ∧
      ∀ count ≤ 65535, table.size = 2 * count → ∀ s,
        ofSplit table data = .ok s ↔
          ofPacked ((wordBytes count).toArray ++ table ++ data) = .ok s := by
  refine ⟨fun s hsmall => ?written, fun table data => ⟨exists_ofSplit_iff, fun s => ?again,
    fun count hcount hsize s => ?packed⟩⟩
  case written =>
    have hsplit : s.split = .ok ((s.offsets.toList.flatMap wordBytes).toArray, s.data) :=
      split_eq_ok_iff.mpr ⟨fun o ho => Nat.lt_succ_of_le (hsmall o ho), rfl, rfl⟩
    exact ⟨_, hsplit, split_eq_ok_iff_ofSplit.mp hsplit,
      fun hcount => packed_of_split hsplit (Nat.lt_succ_of_le hcount)⟩
  case again => exact split_eq_ok_iff_ofSplit.mpr
  case packed => exact (ofPacked_append_eq_ok_iff (Nat.lt_succ_of_le hcount) hsize).symm

/-- Two frames, the second of which starts behind the first 256 bytes of the stream. -/
theorem two_frames_split_and_packed :
    let s : Script := ⟨#[0, 258], .replicate 300 0, by decide +kernel⟩
    let table : Bytes := #[0, 0, 1, 2]
    (∀ o ∈ s.offsets, o ≤ 65535) ∧ s.frameCount ≤ 65535 ∧ s.split = .ok (table, s.data) ∧
      s.packed = .ok ((wordBytes 2).toArray ++ table ++ s.data) ∧ table.size = 2 * 2 ∧
      ofPacked ((wordBytes 2).toArray ++ table ++ s.data) = .ok s := by
  intro s table
  obtain ⟨hwritten, hread⟩ := split_and_packed_hold_same_scripts
  have hsmall : ∀ o ∈ s.offsets, o ≤ 65535 := by simp [s]
  have hcount : s.frameCount ≤ 65535 := by decide
  have htwo : s.split = .ok (table, s.data) := rfl
  obtain ⟨table', hsplit, hparts, hpacked⟩ := hwritten s hsmall
  obtain rfl : table = table' := congrArg Prod.fst (Except.ok.inj (htwo.symm.trans hsplit))
  obtain ⟨-, -, hbehind⟩ := hread table s.data
  have hsize : table.size = 2 * 2 := rfl
  have hbehind := (hbehind 2 (by decide) hsize s).mp hparts
  exact ⟨hsmall, hcount, htwo, hpacked hcount, hsize, hbehind⟩

/-! ## JSON -/

variable {bytes text : Bytes}

theorem ofJson_json_iff :
    ofJson (Text.toBytes s.json) = .ok s ↔ ∀ o ∈ s.offsets, o < 0x10000000000000000 :=
  ⟨offset_lt_of_ofJson, ofJson_json⟩

theorem ofJson_json_of_packed (h : s.packed = .ok bytes) :
    ofJson (Text.toBytes s.json) = .ok s := by
  obtain ⟨-, hsmall, -⟩ := packed_eq_ok_iff.mp h
  exact ofJson_json fun o ho => Nat.lt_trans (hsmall o ho) (by decide)

/-- The JSON of a script is one table of its offsets and its bytes, and the script reads back
from it, whatever its size, as long as its offsets have 64 bits. No text spells others, and
no packed string does. So a packed string that goes through JSON comes out as it was, and so
does the script of a JSON text that goes through the packed container, if that can hold it. -/
theorem json_holds_every_script :
    (∀ s : Script, s.json =
      "\x7b\"indices\":[" ++ listText s.offsets.toList ++ "],\"data\":[" ++
        listText (s.data.toList.map UInt8.toNat) ++ "]\x7d") ∧
    (∀ s : Script, ofJson (Text.toBytes s.json) = .ok s ↔
      ∀ o ∈ s.offsets, o < 0x10000000000000000) ∧
    (∀ bytes s, ofPacked bytes = .ok s →
      ofJson (Text.toBytes s.json) = .ok s ∧ s.packed = .ok bytes) ∧
    ∀ text s, ofJson text = .ok s → ofJson (Text.toBytes s.json) = .ok s ∧
      (s.frameCount ≤ 65535 → (∀ o ∈ s.offsets, o ≤ 65535) →
        ∃ bytes, s.packed = .ok bytes ∧ ofPacked bytes = .ok s) := by
  refine ⟨json_eq, fun s => ofJson_json_iff, fun bytes s hread => ?packed,
    fun text s hread => ?json⟩
  case packed =>
    have hpacked := packed_of_ofPacked hread
    exact ⟨ofJson_json_of_packed hpacked, hpacked⟩
  case json =>
    refine ⟨ofJson_json (offset_lt_of_ofJson hread), fun hcount hsmall => ?_⟩
    obtain ⟨bytes, hpacked⟩ := exists_packed_iff.mpr ⟨hcount, hsmall⟩
    exact ⟨bytes, hpacked, ofPacked_of_packed hpacked⟩

/-- Two frames at one place, packed and in JSON. -/
theorem two_frames_in_json :
    let s : Script := ⟨#[1, 1], #[210, 0], by decide⟩
    s.json = "\x7b\"indices\":[1,1],\"data\":[210,0]\x7d" ∧
      ofPacked #[0, 2, 0, 1, 0, 1, 210, 0] = .ok s ∧ ofJson (Text.toBytes s.json) = .ok s ∧
      s.frameCount ≤ 65535 ∧ (∀ o ∈ s.offsets, o ≤ 65535) ∧
      ∃ bytes, s.packed = .ok bytes ∧ ofPacked bytes = .ok s := by
  intro s
  obtain ⟨hspelled, hjson, hpacked, htext⟩ := json_holds_every_script
  have hread : ofPacked #[0, 2, 0, 1, 0, 1, 210, 0] = .ok s :=
    ofPacked_of_packed (packed_eq_ok_iff.mpr ⟨by decide, by decide, by decide⟩)
  have hcount : s.frameCount ≤ 65535 := by decide
  have hsmall : ∀ o ∈ s.offsets, o ≤ 65535 := by decide
  obtain ⟨hback, -⟩ := hpacked _ s hread
  obtain ⟨-, hfits⟩ := htext _ s hback
  exact ⟨(hspelled s).trans rfl, hread, hback, hcount, hsmall, hfits hcount hsmall⟩

end Bitplane.Script
