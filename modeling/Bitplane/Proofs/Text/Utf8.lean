import Bitplane.Text.Utf8
import Mathlib.Tactic.SplitIfs

/-! # The octets of a text

A text is the octets of its characters in a row. An ASCII character is its own only octet,
and the octets of all others lie above ASCII.
-/

namespace Bitplane.Text

variable {c : Char} {cs : List Char}

theorem toList_toBytes (s : String) :
    (toBytes s).toList = s.toList.flatMap String.utf8EncodeChar := by
  rw [toBytes, String.toUTF8, ← String.utf8Encode_toList, List.utf8Encode, List.data_toByteArray]

theorem ofBytes?_toBytes (s : String) : ofBytes? (toBytes s) = some s := by
  have hvalid : ByteArray.IsValidUTF8 ⟨toBytes s⟩ := s.isValidUTF8
  rw [ofBytes?, String.fromUTF8?, dif_pos hvalid]
  rfl

theorem charBytes_eq (c : Char) : charBytes c = String.utf8EncodeChar c := by
  rw [charBytes, toList_toBytes, String.toList_singleton, List.flatMap_singleton]

def charOctets (c : Char) : List Char := (charBytes c).map fun b => Char.ofNat b.toNat

def octetsOf (cs : List Char) : List Char := cs.flatMap charOctets

theorem octets_toBytes (s : String) : octets (toBytes s) = octetsOf s.toList := by
  simp only [octets, octetsOf, toList_toBytes, List.map_flatMap, ← charBytes_eq]
  rfl

theorem toNat_ofNat_byte (b : UInt8) : (Char.ofNat b.toNat).toNat = b.toNat := by
  have := b.toNat_lt
  have hvalid : b.toNat.isValidChar := .inl (by omega)
  rw [Char.ofNat, dif_pos hvalid]
  rfl

theorem octetByte_ofNat (b : UInt8) : octetByte (Char.ofNat b.toNat) = b := by
  rw [octetByte, toNat_ofNat_byte, UInt8.ofNat_toNat]

theorem map_octetByte_charOctets (c : Char) : (charOctets c).map octetByte = charBytes c := by
  simp [charOctets, Function.comp_def, octetByte_ofNat]

theorem charOctets_of_lt (h : c.toNat < 0x80) : charOctets c = [c] := by
  have hbyte : String.utf8EncodeChar c = [UInt8.ofNat c.toNat] := by
    rw [String.utf8EncodeChar]
    exact if_pos (by change c.toNat ≤ 127; omega)
  rw [charOctets, charBytes_eq, hbyte, List.map_singleton, UInt8.toNat_ofNat',
    Nat.mod_eq_of_lt (by omega), Char.ofNat_toNat]

theorem le_of_mem_charOctets {o : Char} (h : 0x80 ≤ c.toNat) (ho : o ∈ charOctets c) :
    0x80 ≤ o.toNat := by
  obtain ⟨b, hb, rfl⟩ := List.mem_map.mp ho
  rw [toNat_ofNat_byte]
  have hc : ¬c.val.toNat ≤ 127 := by change ¬c.toNat ≤ 127; omega
  simp only [charBytes_eq, String.utf8EncodeChar, hc, if_false] at hb
  split_ifs at hb
  all_goals
    simp only [List.mem_cons, List.not_mem_nil, or_false] at hb
    rcases hb with rfl | rfl | rfl | rfl <;> simp <;> omega

@[simp] theorem octetsOf_nil : octetsOf [] = [] := rfl

@[simp] theorem octetsOf_append (cs ds : List Char) :
    octetsOf (cs ++ ds) = octetsOf cs ++ octetsOf ds := List.flatMap_append

@[simp] theorem octetsOf_cons (h : c.toNat < 0x80) : octetsOf (c :: cs) = c :: octetsOf cs := by
  rw [octetsOf, List.flatMap_cons, charOctets_of_lt h]
  rfl

theorem octetsOf_of_lt (h : ∀ c ∈ cs, c.toNat < 0x80) : octetsOf cs = cs := by
  induction cs with
  | nil => rfl
  | cons c rest ih =>
    rw [octetsOf_cons (h c List.mem_cons_self), ih fun d hd => h d (List.mem_cons_of_mem c hd)]

end Bitplane.Text
