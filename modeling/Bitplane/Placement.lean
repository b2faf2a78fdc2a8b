import Bitplane.Polygon

/-! # Placement

An integer scale and an offset, applied to vertices before they are drawn.
-/

namespace Bitplane

/-- The size of the captured animation. -/
def sourceWidth : Int := 256

def sourceHeight : Int := 204

structure Placement where
  scale : Int
  x : Int
  y : Int
  deriving DecidableEq, Repr

namespace Placement

def identity : Placement := ⟨1, 0, 0⟩

/-- The largest scale at which the source fits a display, or one if none does.
The result is centred between left and right and touches the bottom. -/
def fit (width height : Int) : Placement :=
  let scale := max (min (width.tdiv sourceWidth) (height.tdiv sourceHeight)) 1
  ⟨scale, width.tdiv 2 - (sourceWidth * scale).tdiv 2, height - sourceHeight * scale⟩

def apply (p : Placement) (v : Vertex) : Vertex :=
  ⟨v.y * p.scale + p.y, v.x * p.scale + p.x⟩

end Placement

end Bitplane
