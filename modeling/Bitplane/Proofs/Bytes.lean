import Bitplane.Bytes

/-! # Bytes at an offset

What stands in a byte string from an offset on: a part of it, with any bytes in front
and any bytes behind.
-/

namespace Bitplane.Bytes

/-- These bytes stand in a byte string from an offset on. -/
def Holds (data : Bytes) (offset : Nat) (part : List UInt8) : Prop :=
  ∃ front back, data.toList = front ++ part ++ back ∧ front.length = offset

theorem holds_append (front part back : List UInt8) :
    Bytes.Holds (front ++ part ++ back).toArray front.length part :=
  ⟨front, back, rfl, rfl⟩

theorem holds_of_slice? {data part : Bytes} {offset len : Nat}
    (h : data.slice? offset len = some part) : data.Holds offset part.toList := by
  obtain ⟨hle, rfl⟩ := slice?_eq_some_iff.mp h
  refine ⟨data.toList.take offset, data.toList.drop (offset + len), ?_, ?_⟩
  · rw [Array.toList_extract, List.extract_eq_take_drop, Nat.add_sub_cancel_left,
      List.append_assoc, ← List.drop_drop, List.take_append_drop, List.take_append_drop]
  · rw [List.length_take, Array.length_toList]
    omega

namespace Holds

variable {data : Bytes} {offset : Nat} {byte : UInt8} {part more : List UInt8}

theorem left (h : data.Holds offset (part ++ more)) : data.Holds offset part := by
  obtain ⟨front, back, hdata, hfront⟩ := h
  refine ⟨front, more ++ back, ?_, hfront⟩
  rw [hdata]
  simp only [List.append_assoc]

theorem right (h : data.Holds offset (part ++ more)) :
    data.Holds (offset + part.length) more := by
  obtain ⟨front, back, hdata, rfl⟩ := h
  refine ⟨front ++ part, back, ?_, List.length_append⟩
  rw [hdata]
  simp only [List.append_assoc]

theorem tail (h : data.Holds offset (byte :: part)) : data.Holds (offset + 1) part := by
  have hsplit : data.Holds offset ([byte] ++ part) := h
  exact hsplit.right

theorem head (h : data.Holds offset (byte :: part)) : data[offset]? = some byte := by
  obtain ⟨front, back, hdata, rfl⟩ := h
  rw [← Array.getElem?_toList, hdata]
  simp

theorem cons (hbyte : data[offset]? = some byte) (h : data.Holds (offset + 1) part) :
    data.Holds offset (byte :: part) := by
  obtain ⟨front, back, hdata, hfront⟩ := h
  rw [← Array.getElem?_toList, hdata, List.append_assoc,
    List.getElem?_append_left (by omega)] at hbyte
  have hlast : front = front.take offset ++ [byte] := by
    have htake : front.take (offset + 1) = front.take offset ++ front[offset]?.toList :=
      List.take_add_one
    rwa [hbyte, List.take_of_length_le (Nat.le_of_eq hfront)] at htake
  obtain ⟨init, rfl⟩ : ∃ init, front = init ++ [byte] := ⟨_, hlast⟩
  exact ⟨init, back, by simp [hdata], by simpa using hfront⟩

theorem slice? (h : data.Holds offset part) :
    data.slice? offset part.length = some part.toArray := by
  obtain ⟨front, back, hdata, rfl⟩ := h
  have hsize : data.size = front.length + part.length + back.length := by
    rw [← Array.length_toList, hdata, List.length_append, List.length_append]
  refine slice?_eq_some_iff.mpr ⟨by omega, Array.toList_inj.mp ?_⟩
  rw [Array.toList_extract, hdata]
  simp

end Holds

end Bitplane.Bytes
