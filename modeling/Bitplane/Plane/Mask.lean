import Bitplane.Bytes
import Bitplane.Text.Numeral

/-! # Plane masks

A set of planes as the bits of a byte: bit `n` stands for plane `n`.
-/

namespace Bitplane

structure PlaneMask where
  bits : UInt8
  deriving DecidableEq, Repr

namespace PlaneMask

def empty : PlaneMask := ⟨0⟩

def insert (m : PlaneMask) (plane : UInt8) : PlaneMask := ⟨m.bits ||| 1 <<< plane⟩

def contains (m : PlaneMask) (plane : UInt8) : Bool := m.bits &&& 1 <<< plane != 0

def isEmpty (m : PlaneMask) : Bool := m.bits == 0

/-- The planes of a mask in ascending order. -/
def toList (m : PlaneMask) : List UInt8 := [0, 1, 2, 3, 4, 5, 6, 7].filter m.contains

def size (m : PlaneMask) : Nat := m.toList.length

def text (m : PlaneMask) : String := Text.byteBits m.bits

theorem contains_eq_testBit (m : PlaneMask) (plane : UInt8) :
    m.contains plane = m.bits.toNat.testBit (plane.toNat % 8) := by
  have hbit (i : Nat) : (m.bits &&& 1 <<< plane).toNat.testBit i =
      (m.bits.toNat.testBit i && decide (plane.toNat % 8 = i)) := by
    rw [UInt8.toNat_and, Nat.testBit_and, testBit_one_shiftLeft]
  rw [contains, Bool.eq_iff_iff, bne_iff_ne, Ne, ← UInt8.toNat_inj]
  constructor
  · intro h
    obtain ⟨i, hi⟩ := Nat.exists_testBit_of_ne_zero h
    rw [hbit, Bool.and_eq_true, decide_eq_true_eq] at hi
    exact hi.2 ▸ hi.1
  · intro h hzero
    have := hbit (plane.toNat % 8)
    simp [hzero, h] at this

theorem contains_insert (m : PlaneMask) (plane other : UInt8) :
    (m.insert plane).contains other =
      (decide (plane.toNat % 8 = other.toNat % 8) || m.contains other) := by
  rw [contains_eq_testBit, contains_eq_testBit, insert, UInt8.toNat_or, Nat.testBit_or,
    testBit_one_shiftLeft, Bool.or_comm]

theorem not_contains_empty (plane : UInt8) : ¬empty.contains plane := by
  simp [contains, empty]

theorem mem_toList {m : PlaneMask} {plane : UInt8} :
    plane ∈ m.toList ↔ plane.toNat < 8 ∧ m.contains plane := by
  have hall : plane ∈ ([0, 1, 2, 3, 4, 5, 6, 7] : List UInt8) ↔ plane.toNat < 8 := by
    simp only [List.mem_cons, List.not_mem_nil, or_false, ← UInt8.toNat_inj]
    simp
    omega
  rw [toList, List.mem_filter, hall]

theorem not_mem_toList_empty (plane : UInt8) : plane ∉ empty.toList := by
  rw [mem_toList]
  rintro ⟨-, h⟩
  exact not_contains_empty plane h

theorem mem_toList_insert {m : PlaneMask} {plane other : UInt8} (h : plane.toNat < 8) :
    other ∈ (m.insert plane).toList ↔ other = plane ∨ other ∈ m.toList := by
  rw [mem_toList, mem_toList, contains_insert, Bool.or_eq_true, decide_eq_true_eq,
    Nat.mod_eq_of_lt h, ← UInt8.toNat_inj]
  constructor
  · rintro ⟨hlt, heq | hm⟩
    · exact .inl (by omega)
    · exact .inr ⟨hlt, hm⟩
  · rintro (heq | ⟨hlt, hm⟩)
    · exact ⟨by omega, .inl (by omega)⟩
    · exact ⟨hlt, .inr hm⟩

end PlaneMask

end Bitplane
