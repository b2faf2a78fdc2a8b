import Bitplane.Compositor

/-! # Palette indices

Plane by plane and row by row the compositor joins what is shown at a viewport position
into the index of this position. Of what the buffer held before nothing is left.
-/

namespace Bitplane

theorem Bytes.resize_take_zero (buffer : Bytes) (size : Nat) (byte : UInt8) :
    resize (buffer.take 0) size byte = Array.replicate size byte := by
  simp [resize]

theorem size_foldl_modify {α : Type} (numbers : List Nat) (place : Nat → Nat) (f : Nat → α → α)
    (xs : Array α) :
    (numbers.foldl (fun xs n => xs.modify (place n) (f n)) xs).size = xs.size := by
  induction numbers generalizing xs with
  | nil => rfl
  | cons n rest ih => exact (ih _).trans Array.size_modify

namespace Plane

variable (p : Plane) (width height : Nat) (indices : Bytes)

theorem size_joinRow (y : Nat) : (p.joinRow width y indices).size = indices.size :=
  size_foldl_modify ..

theorem size_join : (p.join width height indices).size = indices.size := by
  unfold join
  generalize List.range height = rows
  induction rows generalizing indices with
  | nil => rfl
  | cons y rest ih => exact (ih _).trans (p.size_joinRow width indices y)

variable {width} {x : Nat} (hx : x < width)
include hx

theorem getElem?_joinRow (y row : Nat) :
    (p.joinRow width y indices)[row * width + x]? =
      if row = y then indices[row * width + x]?.map (· ||| p.sample x y)
      else indices[row * width + x]? := by
  have hcolumns : ∀ count ≤ width, ((List.range count).foldl
      (fun indices x => indices.modify (y * width + x) (· ||| p.sample x y)) indices)[
        row * width + x]? =
      if row = y ∧ x < count then indices[row * width + x]?.map (· ||| p.sample x y)
      else indices[row * width + x]? := by
    intro count hcount
    induction count with
    | zero => simp
    | succ count ih =>
      rw [List.range_succ, List.foldl_append, List.foldl_cons, List.foldl_nil,
        Array.getElem?_modify, ih (by omega)]
      by_cases hhere : row = y ∧ x = count
      · obtain ⟨rfl, rfl⟩ := hhere
        simp
      · have hplace : y * width + count ≠ row * width + x := by
          intro heq
          obtain ⟨rfl, rfl⟩ := rowMajor_inj hcount hx heq
          exact hhere ⟨rfl, rfl⟩
        have hiff : (row = y ∧ x < count + 1) ↔ (row = y ∧ x < count) := by omega
        rw [if_neg hplace]
        simp only [hiff]
  rw [joinRow, hcolumns width (Nat.le_refl _)]
  simp only [hx, and_true]

theorem getElem?_join (row : Nat) :
    (p.join width height indices)[row * width + x]? =
      if row < height then indices[row * width + x]?.map (· ||| p.sample x row)
      else indices[row * width + x]? := by
  unfold join
  induction height with
  | zero => simp
  | succ height ih =>
    rw [List.range_succ, List.foldl_append, List.foldl_cons, List.foldl_nil,
      p.getElem?_joinRow _ hx, ih]
    rcases Nat.lt_trichotomy row height with hlt | rfl | hgt
    · rw [if_neg (Nat.ne_of_lt hlt), if_pos hlt, if_pos (by omega)]
    · simp
    · rw [if_neg (Nat.ne_of_gt hgt), if_neg (by omega), if_neg (by omega)]

end Plane

namespace PlaneStore

variable (s : PlaneStore)

/-- What all planes show at a viewport position, joined. -/
def sample (x y : Nat) : UInt8 := s.planes.foldl (fun index p => index ||| p.sample x y) 0

variable (width height : Nat)

theorem testBit_sample (x y n : Nat) :
    (s.sample x y).toNat.testBit n ↔ ∃ p ∈ s.planes, (p.sample x y).toNat.testBit n := by
  have hfold : ∀ (planes : List Plane) (index : UInt8),
      (planes.foldl (fun index p => index ||| p.sample x y) index).toNat.testBit n ↔
        index.toNat.testBit n ∨ ∃ p ∈ planes, (p.sample x y).toNat.testBit n := by
    intro planes
    induction planes with
    | nil => simp
    | cons p rest ih =>
      intro index
      rw [List.foldl_cons, ih, UInt8.toNat_or, Nat.testBit_or, Bool.or_eq_true, or_assoc]
      simp only [List.mem_cons, exists_eq_or_imp]
  rw [sample, ← Array.foldl_toList, hfold]
  simp

theorem indicesInto_eq (buffer : Bytes) :
    s.indicesInto width height buffer = s.indices width height := by
  rw [indices, indicesInto, indicesInto, Bytes.resize_take_zero, Bytes.resize_take_zero]

theorem size_indices : (s.indices width height).size = wrapped (width * height) := by
  have hfold : ∀ (planes : List Plane) (indices : Bytes),
      (planes.foldl (fun indices p => p.join width height indices) indices).size =
        indices.size := by
    intro planes
    induction planes with
    | nil => exact fun _ => rfl
    | cons p rest ih => exact fun indices => (ih _).trans (p.size_join width height indices)
  rw [indices, indicesInto, Bytes.resize_take_zero, ← Array.foldl_toList, hfold,
    Array.size_replicate]

variable {width height} {x y : Nat}

theorem getElem?_indices (hx : x < width) (hplace : y * width + x < wrapped (width * height)) :
    (s.indices width height)[y * width + x]? = some (s.sample x y) := by
  have hy : y < height := by
    rw [← rowMajor_div y hx]
    exact Nat.div_lt_of_lt_mul (Nat.lt_of_lt_of_le hplace (wrapped_le _))
  have hfold : ∀ (planes : List Plane) (indices : Bytes) (index : UInt8),
      indices[y * width + x]? = some index →
      (planes.foldl (fun indices p => p.join width height indices) indices)[y * width + x]? =
        some (planes.foldl (fun index p => index ||| p.sample x y) index) := by
    intro planes
    induction planes with
    | nil => exact fun _ _ h => h
    | cons p rest ih =>
      intro indices index h
      refine ih _ _ ?_
      rw [p.getElem?_join height indices hx, if_pos hy, h]
      rfl
  rw [indices, indicesInto, sample, Bytes.resize_take_zero, ← Array.foldl_toList,
    ← Array.foldl_toList]
  refine hfold _ _ _ ?_
  rw [Array.getElem?_replicate, if_pos hplace]

theorem exists_of_mem_indices {index : UInt8} (h : index ∈ s.indices width height) :
    ∃ x y, index = s.sample x y := by
  obtain ⟨i, hi⟩ := Array.mem_iff_getElem?.mp h
  have hlt := (Array.getElem?_eq_some_iff.mp hi).1
  rw [size_indices] at hlt
  have hwidth : 0 < width :=
    Nat.pos_of_mul_pos_right (Nat.zero_lt_of_lt (Nat.lt_of_lt_of_le hlt (wrapped_le _)))
  rw [← Nat.div_add_mod' i width] at hi hlt
  have hget := s.getElem?_indices (Nat.mod_lt i hwidth) hlt
  rw [hi] at hget
  exact ⟨_, _, Option.some.inj hget⟩

end PlaneStore

end Bitplane
