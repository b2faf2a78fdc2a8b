import Bitplane.Palette
import Bitplane.Bytes

/-! # Framebuffers

An image of a fixed size. What is painted over it replaces every pixel. The size is a word
of 64 bits, and the image lacks the pixels that it does not count.
-/

namespace Bitplane

structure Framebuffer where
  width : Nat
  height : Nat
  /-- The pixels row by row. -/
  pixels : Array Color
  size_pixels : pixels.size = wrapped (width * height)
  deriving DecidableEq

namespace Framebuffer

def black (width height : Nat) : Framebuffer :=
  ⟨width, height, Array.replicate (wrapped (width * height)) .black, Array.size_replicate⟩

variable (f : Framebuffer)

def get? (x y : Nat) : Option Color :=
  if x < f.width ∧ y < f.height then f.pixels[y * f.width + x]? else none

/-- Gives each pixel the color of its palette index. A pixel without an index keeps the
color it has. -/
def paint (palette : Palette) (indices : Bytes) : Framebuffer :=
  { f with
    pixels := f.pixels.mapIdx fun i pixel =>
      match indices[i]? with
      | some index => palette.get index.toNat
      | none => pixel
    size_pixels := Array.size_mapIdx.trans f.size_pixels }

end Framebuffer

end Bitplane
