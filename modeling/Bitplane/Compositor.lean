import Bitplane.Framebuffer
import Bitplane.Plane.Store

/-! # The compositor

All planes are read at the same viewport position and their bytes joined into a
palette index, whether or not a frame drew into them. The indices are a buffer that
one image leaves to the next.
-/

namespace Bitplane

namespace Plane

variable (p : Plane)

/-- Joins what the plane shows on row `y` into the indices of that row. -/
def joinRow (width y : Nat) (indices : Bytes) : Bytes :=
  (List.range width).foldl
    (fun indices x => indices.modify (y * width + x) (· ||| p.sample x y)) indices

def join (width height : Nat) (indices : Bytes) : Bytes :=
  (List.range height).foldl (fun indices y => p.joinRow width y indices) indices

end Plane

namespace PlaneStore

variable (s : PlaneStore)

/-- Overwrites a buffer with the palette indices of a viewport, row by row. -/
def indicesInto (width height : Nat) (buffer : Bytes) : Bytes :=
  s.planes.foldl (fun indices p => p.join width height indices)
    (Bytes.resize (buffer.take 0) (wrapped (width * height)) 0)

def indices (width height : Nat) : Bytes := s.indicesInto width height #[]

end PlaneStore

structure Compositor where
  /-- The palette indices of the last image. -/
  indices : Bytes
  deriving DecidableEq, Repr

namespace Compositor

def empty : Compositor := ⟨#[]⟩

def compose (c : Compositor) (s : PlaneStore) (palette : Palette) (f : Framebuffer) :
    Compositor × Framebuffer :=
  let indices := s.indicesInto f.width f.height c.indices
  (⟨indices⟩, f.paint palette indices)

end Compositor

end Bitplane
