import Bitplane.DrawList.Operation
import Bitplane.Revision

/-! # Tweening

A tween makes a polygon between two polygon records of the stream. Shapes of
different sizes are matched by index: vertex `i` of `n` comes from vertex
`i * size / n` on each side, and each coordinate is blended by rounding
`from + t * (to - from) / tMax` down.
-/

namespace Bitplane.Tween

/-- The polygon recorded behind the command byte at `target`. -/
def resolve (revision : Revision) (data : Bytes) (target : Nat) : Except TweenFault Polygon :=
  match data[target]? with
  | none => .error (.outOfBounds target)
  | some tag =>
    if !revision.isPolygon tag then .error (.notAPolygon target tag)
    else match data[target + 1]? with
      | none => .error (.truncated target 2)
      | some count =>
        let size := 2 * count.toNat
        match data.slice? (target + 2) size with
        | none => .error (.truncated target (2 + size))
        | some part => .ok ⟨(bytePairs part.toList).map Vertex.ofBytes⟩

/-- A coordinate `t / tMax` of the way between two, rounded down. -/
def blend (t tMax : UInt8) (a b : Int) : Int :=
  (a * tMax.toNat + t.toNat * (b - a)) / tMax.toNat

def blendVertex (t tMax : UInt8) (a b : Vertex) : Vertex :=
  ⟨blend t tMax a.y b.y, blend t tMax a.x b.x⟩

/-- The vertices of a polygon spread over `points` places, each possibly repeated. -/
def spread (points : Nat) (p : Polygon) : List Vertex :=
  (List.range points).filterMap fun i => p.vertices[i * p.size / points]?

/-- The polygon between two others, which are both empty or both not. -/
def between (t tMax : UInt8) (a b : Polygon) : Polygon :=
  let points := max a.size b.size
  ⟨List.zipWith (blendVertex t tMax) (spread points a) (spread points b)⟩

def polygon (revision : Revision) (data : Bytes) (ref : TweenRef) :
    Except TweenFault Polygon := do
  if ref.tMax = 0 then throw .zeroDuration
  let a ← resolve revision data ref.fromOffset
  let b ← resolve revision data ref.toOffset
  if a.size = 0 ∧ 0 < b.size then throw (.emptyShape ref.fromOffset)
  if 0 < a.size ∧ b.size = 0 then throw (.emptyShape ref.toOffset)
  return between ref.t ref.tMax a b

end Bitplane.Tween
