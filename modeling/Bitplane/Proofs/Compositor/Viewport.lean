import Bitplane.Proofs.Compositor.Indices
import Bitplane.Proofs.Plane.Tidy

/-! # Viewports

A plane is read as one long string of bytes from its offset on, at places that are words. As
long as no word overflows, what it shows are the lit pixels of its drawable area, moved by the
column and the row that the offset stands for, and nothing else. An index collects what is
read as the bits of the planes.
-/

namespace Bitplane

namespace Plane

variable (p : Plane)

/-- Whether the plane is lit in the drawable position that a viewport position comes to. -/
def Shows (x y : Nat) : Prop :=
  0 < p.stride ∧ p.offset % p.stride + x < p.width ∧ p.offset / p.stride + y < p.height ∧
    p.isSet (p.offset % p.stride + x : Nat) (p.offset / p.stride + y : Nat)

instance (x y : Nat) : Decidable (p.Shows x y) := inferInstanceAs (Decidable (_ ∧ _ ∧ _ ∧ _))

/-- Whether the byte that a viewport position comes to is lit, its column and its place being
words. -/
def Reads (x y : Nat) : Prop :=
  0 < p.stride ∧ wrapped (p.offset % p.stride + x) < p.stride ∧
    p.data.getD (wrapped (p.offset + y * p.stride + x)) 0 ≠ 0

instance (x y : Nat) : Decidable (p.Reads x y) := inferInstanceAs (Decidable (_ ∧ _ ∧ _))

theorem Tidy.getD_eq_or {p : Plane} (h : p.Tidy) (place : Nat) :
    p.data.getD place 0 = 0 ∨ p.data.getD place 0 = p.pen := by
  rw [Array.getD_eq_getD_getElem?]
  cases hbyte : p.data[place]? with
  | none => exact .inl rfl
  | some byte => exact (h place byte hbyte).imp_right And.left

theorem Tidy.sample_eq {p : Plane} (h : p.Tidy) (x y : Nat) :
    p.sample x y = if p.Reads x y then p.pen else 0 := by
  unfold sample
  split
  case isTrue hbeyond =>
    have hhidden : ¬p.Reads x y := by
      rintro ⟨hstride, hcolumn, -⟩
      omega
    rw [if_neg hhidden]
  case isFalse hwithin =>
    split
    case isTrue hreads => exact (h.getD_eq_or _).resolve_left hreads.2.2
    case isFalse hdark =>
      by_contra hlit
      exact hdark ⟨by omega, by omega, hlit⟩

theorem draws_of_isSet {x y : Nat} (h : p.isSet x y) : x < p.width ∧ y < p.height := by
  unfold isSet address? at h
  split at h
  case h_1 place haddress =>
    rw [Option.ite_none_right_eq_some] at haddress
    omega
  case h_2 => cases h

section Whole

variable {p} (hwhole : p.IsWhole)
include hwhole

theorem isSet_place {x y : Nat} (hx : x < p.width) (hy : y < p.height) :
    p.isSet x y ↔ p.data.getD (y * p.stride + x) 0 ≠ 0 := by
  simp only [isSet, hwhole.address?_natCast hx hy, bne_iff_ne]

namespace Tidy

variable (h : p.Tidy)
include h

theorem getD_ne_zero_iff (place : Nat) :
    p.data.getD place 0 ≠ 0 ↔ p.isSet (place % p.stride : Nat) (place / p.stride : Nat) := by
  constructor
  · intro hlit
    rw [Array.getD_eq_getD_getElem?] at hlit
    cases hbyte : p.data[place]? with
    | none => simp [hbyte] at hlit
    | some byte =>
      rw [hbyte, Option.getD_some] at hlit
      have hx := ((h place byte hbyte).resolve_left hlit).2 hwhole
      have hy : place / p.stride < p.height := by
        have hlt := (Array.getElem?_eq_some_iff.mp hbyte).1
        rw [IsWhole] at hwhole
        exact Nat.div_lt_of_lt_mul (hwhole ▸ hlt)
      rw [isSet_place hwhole hx hy, Nat.div_add_mod', Array.getD_eq_getD_getElem?, hbyte]
      exact hlit
  · intro hset
    obtain ⟨hx, hy⟩ := p.draws_of_isSet hset
    rwa [isSet_place hwhole hx hy, Nat.div_add_mod'] at hset

/-- As long as no word overflows, a whole tidy plane is read where it shows. -/
theorem reads_iff_shows {x y : Nat} (hfits : p.offset + y * p.stride + x < 2 ^ 64) :
    p.Reads x y ↔ p.Shows x y := by
  have hoffset := Nat.div_add_mod' p.offset p.stride
  have hcolumn : wrapped (p.offset % p.stride + x) = p.offset % p.stride + x :=
    wrapped_eq_self_iff.mpr (by omega)
  have hplace : p.offset + y * p.stride + x =
      (p.offset / p.stride + y) * p.stride + (p.offset % p.stride + x) := by
    rw [Nat.add_mul]
    omega
  rw [Reads, Shows, hcolumn, wrapped_eq_self_iff.mpr hfits, h.getD_ne_zero_iff hwhole, hplace]
  refine and_congr_right fun _ => ?_
  constructor
  · rintro ⟨hrow, hset⟩
    rw [rowMajor_mod _ hrow, rowMajor_div _ hrow] at hset
    obtain ⟨hx, hy⟩ := p.draws_of_isSet hset
    exact ⟨hx, hy, hset⟩
  · rintro ⟨hx, hy, hset⟩
    have hrow := Nat.lt_of_lt_of_le hx p.width_le_stride
    rw [rowMajor_mod _ hrow, rowMajor_div _ hrow]
    exact ⟨hrow, hset⟩

end Tidy

end Whole

theorem toNat_pen {p : Plane} (h : p.index.toNat < 8) : p.pen.toNat = 2 ^ p.index.toNat := by
  refine Nat.eq_of_testBit_eq fun i => ?_
  rw [pen, testBit_one_shiftLeft, Nat.mod_eq_of_lt h, Nat.testBit_two_pow]

end Plane

namespace PlaneStore

/-- Whether every plane is tidy and numbered by its place, which has a bit in a byte. -/
structure Tidy (s : PlaneStore) : Prop where
  size_le : s.size ≤ 8
  index_eq : ∀ (n : Nat) (p : Plane), s.planes[n]? = some p → p.index.toNat = n
  tidy : ∀ (n : Nat) (p : Plane), s.planes[n]? = some p → p.Tidy

namespace Tidy

variable {s : PlaneStore} (h : s.Tidy)
include h

theorem toNat_pen {n : Nat} {p : Plane} (hp : s.planes[n]? = some p) : p.pen.toNat = 2 ^ n := by
  have hn : n < s.size := (Array.getElem?_eq_some_iff.mp hp).1
  have hindex := h.index_eq n p hp
  have hsize := h.size_le
  rw [Plane.toNat_pen (by omega), hindex]

theorem testBit_sample_iff (x y n : Nat) :
    (s.sample x y).toNat.testBit n ↔ ∃ p, s.planes[n]? = some p ∧ p.Reads x y := by
  rw [testBit_sample]
  constructor
  · rintro ⟨p, hp, hbit⟩
    obtain ⟨m, hm⟩ := Array.mem_iff_getElem?.mp hp
    rw [(h.tidy m p hm).sample_eq] at hbit
    split at hbit
    case isTrue hreads =>
      rw [h.toNat_pen hm, Nat.testBit_two_pow, decide_eq_true_eq] at hbit
      exact ⟨p, hbit ▸ hm, hreads⟩
    case isFalse => simp at hbit
  · rintro ⟨p, hp, hreads⟩
    refine ⟨p, Array.mem_of_getElem? hp, ?_⟩
    rw [(h.tidy n p hp).sample_eq, if_pos hreads, h.toNat_pen hp, Nat.testBit_two_pow_self]

theorem lt_of_mem_indices {width height : Nat} {index : UInt8}
    (hindex : index ∈ s.indices width height) : index.toNat < 2 ^ s.size := by
  obtain ⟨x, y, rfl⟩ := s.exists_of_mem_indices hindex
  refine Nat.lt_pow_two_of_testBit _ fun n hn => ?_
  rw [Bool.eq_false_iff]
  intro hbit
  obtain ⟨p, hp, -⟩ := (h.testBit_sample_iff x y n).mp hbit
  exact absurd (Array.getElem?_eq_some_iff.mp hp).1 (Nat.not_lt_of_le hn)

end Tidy

end PlaneStore

end Bitplane
