import Bitplane.Bytes
import Bitplane.Fault

/-! # Polygons

A polygon is a list of vertices, closed from the last to the first. Its record
is a count byte and that many `(y, x)` pairs of bytes.
-/

namespace Bitplane

/-- A point of a plane, row first. -/
structure Vertex where
  y : Int
  x : Int
  deriving DecidableEq, Repr

def Vertex.text (v : Vertex) : String := s!"({v.y}, {v.x})"

def Vertex.ofBytes (pair : UInt8 × UInt8) : Vertex := ⟨pair.1.toNat, pair.2.toNat⟩

structure Polygon where
  vertices : List Vertex
  deriving DecidableEq, Repr

namespace Polygon

def size (p : Polygon) : Nat := p.vertices.length

def text (p : Polygon) : String := s!"Polygon({p.size} vertices)"

def maxRecorded : Nat := 255

/-- The polygon recorded at `offset`, and the offset just past its record. -/
def read (data : Bytes) (offset : Nat) : Except FrameFault (Polygon × Nat) :=
  match data[offset]? with
  | none => .error (.unexpectedEnd offset 1)
  | some count =>
    let needed := 2 * count.toNat
    match data.slice? (offset + 1) needed with
    | none => .error (.unexpectedEnd (offset + 1) needed)
    | some part => .ok (⟨(bytePairs part.toList).map Vertex.ofBytes⟩, offset + 1 + needed)

def saturate (coordinate : Int) : UInt8 := UInt8.ofNat (min coordinate.toNat 255)

/-- The record of a polygon: at most 255 vertices, each coordinate saturated. -/
def record (p : Polygon) : List UInt8 :=
  let kept := p.vertices.take maxRecorded
  UInt8.ofNat kept.length :: kept.flatMap fun v => [saturate v.y, saturate v.x]

end Polygon

end Bitplane
