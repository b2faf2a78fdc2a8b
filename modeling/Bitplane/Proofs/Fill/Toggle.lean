import Bitplane.Plane.Spans
import Mathlib.Algebra.Ring.Parity

/-! # Toggled bytes

A span toggles exactly its drawable pixels, and a pixel is toggled once for each
span that covers it. A byte therefore changes exactly when it belongs to a
drawable pixel that an odd number of spans cover.
-/

namespace Bitplane

def Span.Covers (s : Span) (x y : Int) : Prop := s.y = y ∧ s.first ≤ x ∧ x ≤ s.last

instance (s : Span) (x y : Int) : Decidable (s.Covers x y) :=
  inferInstanceAs (Decidable (_ ∧ _ ∧ _))

def coverCount (spans : List Span) (x y : Int) : Nat := spans.countP fun s => s.Covers x y

namespace Plane

/-- A byte after `count` toggles by `pen`. -/
def toggled (pen : UInt8) (count : Nat) (byte : UInt8) : UInt8 :=
  if Odd count then byte ^^^ pen else byte

@[simp] theorem toggled_zero (pen byte : UInt8) : toggled pen 0 byte = byte := by simp [toggled]

@[simp] theorem toggled_one (pen byte : UInt8) : toggled pen 1 byte = byte ^^^ pen := by
  simp [toggled]

theorem toggled_add (pen : UInt8) (m n : Nat) (byte : UInt8) :
    toggled pen (m + n) byte = toggled pen n (toggled pen m byte) := by
  have hx : byte ^^^ pen ^^^ pen = byte := by rw [UInt8.xor_assoc, UInt8.xor_self, UInt8.xor_zero]
  simp only [toggled, Nat.odd_add]
  by_cases hm : Odd m <;> by_cases hn : Odd n <;>
    simp [hm, hn, hx, ← Nat.not_odd_iff_even]

theorem getElem?_xorRun (pen : UInt8) (count i j : Nat) (data : Bytes) :
    (xorRun pen count i data)[j]? =
      data[j]?.map (toggled pen (if i ≤ j ∧ j < i + count then 1 else 0)) := by
  induction count generalizing i data with
  | zero =>
    rw [if_neg (by omega)]
    simp [xorRun, funext (toggled_zero pen)]
  | succ count ih =>
    rw [xorRun, ih, Array.getElem?_modify]
    by_cases hj : i = j
    · rw [if_pos hj, if_neg (by omega), if_pos (by omega), funext (toggled_one pen)]
      simp [Function.comp_def]
    · have hiff : (i + 1 ≤ j ∧ j < i + 1 + count) ↔ (i ≤ j ∧ j < i + (count + 1)) := by omega
      simp only [hiff, if_neg hj]

theorem getElem?_xorRuns (pen : UInt8) (runs : List (Nat × Nat)) (j : Nat) (data : Bytes) :
    (xorRuns pen runs data)[j]? =
      data[j]?.map (toggled pen (runs.countP fun r => r.1 ≤ j ∧ j < r.1 + r.2)) := by
  induction runs generalizing data with
  | nil => simp [xorRuns, funext (toggled_zero pen)]
  | cons run rest ih =>
    have hcons : xorRuns pen (run :: rest) data =
        xorRuns pen rest (xorRun pen run.2 run.1 data) := rfl
    rw [hcons, ih, getElem?_xorRun, Option.map_map, List.countP_cons,
      Nat.add_comm (List.countP _ rest), funext (toggled_add pen _ _)]
    simp only [Function.comp_def, decide_eq_true_eq]

variable (p : Plane)

theorem pen_ne_zero : p.pen ≠ 0 := by
  intro h
  have hbit := testBit_one_shiftLeft p.index (p.index.toNat % 8)
  rw [← pen, h] at hbit
  simp at hbit

theorem place_inj {x y x' y' : Nat} (hx : x < p.width) (hx' : x' < p.width)
    (h : y * p.stride + x = y' * p.stride + x') : x = x' ∧ y = y' :=
  rowMajor_inj (Nat.lt_of_lt_of_le hx p.width_le_stride)
    (Nat.lt_of_lt_of_le hx' p.width_le_stride) h

theorem size_data_lt : p.data.size < 2 ^ 64 := by
  rw [p.size_data]
  exact wrapped_lt _

theorem place_or_padding (i : Nat) :
    (∃ x y, x < p.width ∧ y < p.height ∧ i = y * p.stride + x) ∨
      ∀ x y, x < p.width → y < p.height → i ≠ y * p.stride + x := by
  by_cases hplace : ∃ x y, x < p.width ∧ y < p.height ∧ i = y * p.stride + x
  · exact .inl hplace
  · exact .inr fun x y hx hy hi => hplace ⟨x, y, hx, hy, hi⟩

theorem data_xorSpans_toggles (spans : List Span) (i : Nat) :
    ∃ count, (p.xorSpans spans).data[i]? = p.data[i]?.map (toggled p.pen count) :=
  ⟨_, getElem?_xorRuns ..⟩

namespace IsWhole

variable {p} (h : p.IsWhole)
include h

theorem lt_size {x y : Nat} (hx : x < p.stride) (hy : y < p.height) :
    y * p.stride + x < p.data.size := by
  rw [IsWhole] at h
  exact h ▸ rowMajor_lt hx hy

theorem place_lt_size {x y : Nat} (hx : x < p.width) (hy : y < p.height) :
    y * p.stride + x < p.data.size :=
  h.lt_size (Nat.lt_of_lt_of_le hx p.width_le_stride) hy

theorem place_eq {x y : Nat} (hx : x < p.width) (hy : y < p.height) :
    p.place x y = y * p.stride + x :=
  wrapped_eq_self_iff.mpr (Nat.lt_trans (h.place_lt_size hx hy) p.size_data_lt)

theorem address?_natCast {x y : Nat} (hx : x < p.width) (hy : y < p.height) :
    p.address? x y = some (y * p.stride + x) := by
  rw [address?, if_pos (by omega), Int.toNat_natCast, Int.toNat_natCast, h.place_eq hx hy]

theorem ite_clear (clear : Bool) : (if clear then p.clear else p).IsWhole := by
  cases clear with
  | false => exact h
  | true => exact p.isWhole_clear.mpr h

theorem mem_run_iff (s : Span) (i : Nat) :
    ((p.run s.y s.first s.last).1 ≤ i ∧
        i < (p.run s.y s.first s.last).1 + (p.run s.y s.first s.last).2) ↔
      ∃ x y : Nat, x < p.width ∧ y < p.height ∧ i = y * p.stride + x ∧ s.Covers x y := by
  unfold run Span.Covers
  dsimp only
  split
  case isTrue hnone =>
    constructor
    · rintro ⟨-, hlt⟩
      exact absurd hlt (Nat.not_lt_zero i)
    · rintro ⟨x, y, hx, hy, -, hc⟩
      omega
  case isFalse hspan =>
    rw [h.place_eq (by omega) (by omega)]
    constructor
    · rintro ⟨hle, hlt⟩
      exact ⟨i - s.y.toNat * p.stride, s.y.toNat, by omega, by omega, by omega, by omega,
        by omega, by omega⟩
    · rintro ⟨x, y, hx, hy, rfl, hrow, hfirst, hlast⟩
      obtain rfl : s.y.toNat = y := by omega
      omega

/-- The byte of a drawable pixel is toggled once for each span that covers it. -/
theorem getElem?_xorSpans_place (spans : List Span) {x y : Nat} (hx : x < p.width)
    (hy : y < p.height) :
    (p.xorSpans spans).data[y * p.stride + x]? =
      p.data[y * p.stride + x]?.map (toggled p.pen (coverCount spans x y)) := by
  have hrun (s : Span) : ((p.run s.y s.first s.last).1 ≤ y * p.stride + x ∧
      y * p.stride + x < (p.run s.y s.first s.last).1 + (p.run s.y s.first s.last).2) ↔
      s.Covers x y := by
    rw [h.mem_run_iff]
    constructor
    · rintro ⟨x', y', hx', -, hi, hc⟩
      obtain ⟨rfl, rfl⟩ := p.place_inj hx hx' hi
      exact hc
    · intro hc
      exact ⟨x, y, hx, hy, rfl, hc⟩
  rw [xorSpans, withData, getElem?_xorRuns, List.countP_map]
  simp only [Function.comp_def, hrun]
  rfl

theorem getElem?_xorSpans_padding (spans : List Span) {i : Nat}
    (hi : ∀ x y, x < p.width → y < p.height → i ≠ y * p.stride + x) :
    (p.xorSpans spans).data[i]? = p.data[i]? := by
  have hrun (s : Span) : ¬((p.run s.y s.first s.last).1 ≤ i ∧
      i < (p.run s.y s.first s.last).1 + (p.run s.y s.first s.last).2) := by
    rw [h.mem_run_iff]
    rintro ⟨x, y, hx, hy, rfl, -⟩
    exact hi x y hx hy rfl
  rw [xorSpans, withData, getElem?_xorRuns, List.countP_map]
  simp only [Function.comp_def, hrun, decide_false, List.countP_false]
  simp [funext (toggled_zero p.pen)]

end IsWhole

end Plane

end Bitplane
