import Bitplane.Proofs.Fill.Toggle
import Bitplane.Proofs.Plane.Redraw

/-! # Tidy planes

Drawing puts nothing into a plane but its pen, and nothing at all behind the drawable part
of a row where the plane is whole. What it toggles there lies within the buffer.
-/

namespace Bitplane

namespace Plane

/-- Whether each byte is dark or holds the pen, which it does in a drawable column alone. -/
def Tidy (p : Plane) : Prop :=
  ∀ i byte, p.data[i]? = some byte →
    byte = 0 ∨ byte = p.pen ∧ (p.IsWhole → i % p.stride < p.width)

variable {p : Plane}

theorem isDark_dark (index : UInt8) (width height stride : Nat) :
    (dark index width height stride).IsDark := by
  intro byte hbyte
  exact (Array.mem_replicate.mp hbyte).2

theorem IsDark.tidy (h : p.IsDark) : p.Tidy := by
  intro i byte hbyte
  exact .inl (h byte (Array.mem_of_getElem? hbyte))

theorem toggled_eq_or {pen byte : UInt8} (h : byte = 0 ∨ byte = pen) (count : Nat) :
    toggled pen count byte = 0 ∨ toggled pen count byte = pen := by
  unfold toggled
  split
  case isTrue =>
    rcases h with rfl | rfl
    · exact .inr UInt8.zero_xor
    · exact .inl UInt8.xor_self
  case isFalse => exact h

namespace Tidy

variable (h : p.Tidy)
include h

theorem scroll (x y : Nat) : (p.scroll x y).Tidy := h

theorem xorSpans (spans : List Span) : (p.xorSpans spans).Tidy := by
  intro i byte hbyte
  have hpen : byte = 0 ∨ byte = p.pen := by
    obtain ⟨count, htoggles⟩ := p.data_xorSpans_toggles spans i
    rw [htoggles] at hbyte
    obtain ⟨old, hold, rfl⟩ := Option.map_eq_some_iff.mp hbyte
    exact toggled_eq_or ((h i old hold).imp_right And.left) count
  by_cases hdark : byte = 0
  · exact .inl hdark
  refine .inr ⟨hpen.resolve_left hdark, fun hwhole => ?_⟩
  replace hwhole : p.IsWhole := (p.isWhole_withData ..).mp hwhole
  rcases p.place_or_padding i with ⟨x, y, hx, hy, rfl⟩ | hpadding
  · calc (y * p.stride + x) % p.stride
        = x := rowMajor_mod y (Nat.lt_of_lt_of_le hx p.width_le_stride)
      _ < p.width := hx
  · rw [hwhole.getElem?_xorSpans_padding spans hpadding] at hbyte
    exact ((h i byte hbyte).resolve_left hdark).2 hwhole

theorem fill (placement : Placement) (vertices : List Vertex) (clear : Bool) :
    (p.fill placement vertices clear).Tidy := by
  unfold Plane.fill
  split
  · exact p.isDark_clear.tidy.xorSpans _
  · exact h.xorSpans _

theorem fillAll (placement : Placement) (shapes : List Polygon) :
    (p.fillAll placement shapes).Tidy := by
  induction shapes generalizing p with
  | nil => exact h
  | cons shape rest ih => exact ih (h.fill placement shape.vertices false)

theorem redraw (placement : Placement) (shapes : List Polygon) :
    (p.redraw placement shapes).Tidy := by
  unfold Plane.redraw
  split
  · exact h
  · exact p.isDark_clear.tidy.fillAll placement shapes

theorem getElem?_padding (hwhole : p.IsWhole) {x y : Nat} (hx : p.width ≤ x)
    (hx' : x < p.stride) (hy : y < p.height) : p.data[y * p.stride + x]? = some 0 := by
  have hplace := Array.getElem?_eq_getElem (hwhole.lt_size hx' hy)
  rw [hplace, Option.some.injEq]
  refine (h _ _ hplace).resolve_right fun hlit => ?_
  have hcolumn := hlit.2 hwhole
  rw [rowMajor_mod y hx'] at hcolumn
  omega

end Tidy

/-! ## Places -/

variable (p)

theorem run_pixel (x y : Int) : p.run y x x = ((p.address? x y).map (·, 1)).getD (0, 0) := by
  unfold run address?
  dsimp only
  by_cases hdrawable : 0 ≤ x ∧ x < p.width ∧ 0 ≤ y ∧ y < p.height
  · have hcolumn : max x 0 = x ∧ min x (p.width - 1) = x := by omega
    have hcount : (x - x + 1).toNat = 1 := by omega
    rw [if_pos hdrawable, if_neg (by omega), hcolumn.1, hcolumn.2, hcount]
    rfl
  · rw [if_neg hdrawable, if_pos (by omega)]
    rfl

theorem xorPixel_eq_xorSpan (x y : Int) : p.xorPixel x y = p.xorSpan y x x := by
  have hrun := p.run_pixel x y
  cases haddress : p.address? x y
  all_goals
    rw [haddress] at hrun
    simp only [xorPixel, haddress, xorSpan, hrun]
    rfl

namespace IsWhole

variable {p} (h : p.IsWhole)
include h

theorem lt_size_of_address? {x y : Int} {place : Nat} (hplace : p.address? x y = some place) :
    place < p.data.size := by
  unfold address? at hplace
  split at hplace
  case isTrue hdrawable =>
    cases hplace
    rw [h.place_eq (by omega) (by omega)]
    exact h.place_lt_size (by omega) (by omega)
  case isFalse => cases hplace

theorem run_le_size (y x₀ x₁ : Int) : (p.run y x₀ x₁).1 + (p.run y x₀ x₁).2 ≤ p.data.size := by
  unfold run
  dsimp only
  split
  case isTrue => exact Nat.zero_le _
  case isFalse hspan =>
    have hx : (min x₁ (p.width - 1)).toNat < p.width := by omega
    have hy : y.toNat < p.height := by omega
    have hlast := h.place_lt_size hx hy
    rw [h.place_eq (by omega) hy]
    omega

end IsWhole

end Plane

end Bitplane
