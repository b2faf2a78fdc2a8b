import Bitplane.Placement

/-! # Outlines

The outline of a placed polygon is its list of edges, each directed from top to
bottom. Horizontal sides cross no row and are dropped.
-/

namespace Bitplane

structure Edge where
  top : Vertex
  bottom : Vertex
  top_lt_bottom : top.y < bottom.y
  deriving DecidableEq, Repr

namespace Edge

/-- The edge between two points in either order, unless it is horizontal. -/
def between? (a b : Vertex) : Option Edge :=
  if h : a.y < b.y then some ⟨a, b, h⟩
  else if h : b.y < a.y then some ⟨b, a, h⟩
  else none

/-- The number of rows that an edge descends, at least one. -/
def dy (e : Edge) : Int := e.bottom.y - e.top.y

def dx (e : Edge) : Int := e.bottom.x - e.top.x

end Edge

/-- The sides of a closed polygon: each point with the next, the last with the first. -/
def sides (points : List Vertex) : List (Vertex × Vertex) :=
  points.zip (points.tail ++ points.take 1)

def outline (placement : Placement) (vertices : List Vertex) : List Edge :=
  (sides (vertices.map placement.apply)).filterMap fun (a, b) => Edge.between? a b

end Bitplane
