import Bitplane.Notice
import Bitplane.Plane.Spans

/-! # The rasterizer

A rasterizer fills polygons by parity. It goes down the rows of an outline and
keeps the edges that cross the current row, from left to right: an edge enters at
its top row, by way of a table of chains, and leaves at its bottom row. The edges,
the table and the current row are buffers that one fill leaves to the next.
-/

namespace Bitplane

structure LinkedEdge extends Crossing where
  /-- The number of the next edge in the chain of its top row. -/
  next : Option Nat
  deriving DecidableEq, Repr

/-- The first and the last row of an outline, if it has edges. -/
def rowRange? (edges : List Edge) : Option (Int × Int) :=
  match (edges.map (·.top.y)).min?, (edges.map (·.bottom.y)).max? with
  | some top, some bottom => some (top, bottom)
  | _, _ => none

structure Rasterizer where
  placement : Placement
  edges : Array LinkedEdge
  /-- For each row of the outline, the number of the first edge in its chain. -/
  table : Array (Option Nat)
  /-- The numbers of the edges that cross the current row, from left to right. -/
  active : List Nat

namespace Rasterizer

def ofPlacement (placement : Placement) : Rasterizer := ⟨placement, #[], #[], []⟩

variable (z : Rasterizer)

/-! ## The edge table -/

/-- Puts edge `i` in front of the chain of its top row. -/
def link (top : Int) (i : Nat) : Rasterizer :=
  match z.edges[i]? with
  | none => z
  | some e =>
    let slot := (e.edge.top.y - top).toNat
    let first := z.table.getD slot none
    { z with
      edges := z.edges.modify i fun e => { e with next := first }
      table := z.table.setIfInBounds slot (some i) }

/-- Fills the buffers with an outline of which `top` and `bottom` are the first and the
last row. -/
def build (edges : List Edge) (top bottom : Int) : Rasterizer :=
  (List.range edges.length).foldl (fun z i => z.link top i)
    { z with
      edges := (edges.map fun e => ⟨.enter e, none⟩).toArray
      table := Array.replicate ((bottom - top).toNat + 1) none
      active := [] }

/-- The numbers of a chain, of which `fuel` bounds the length. -/
def chain (edges : Array LinkedEdge) : (fuel : Nat) → Option Nat → List Nat
  | _, none => []
  | 0, some _ => []
  | fuel + 1, some i => i :: chain edges fuel (edges[i]?.bind (·.next))

/-! ## The sweep -/

def crossings (numbers : List Nat) : List Crossing :=
  numbers.filterMap fun i => z.edges[i]?.map (·.toCrossing)

/-- Whether the edge `i` does not end at row `y`. -/
def stays (y : Int) (i : Nat) : Bool :=
  z.edges[i]?.any fun e => e.edge.bottom.y != y

def le (i j : Nat) : Bool :=
  match z.edges[i]?, z.edges[j]? with
  | some c, some d => c.toCrossing.le d.toCrossing
  | c, _ => c.isNone

/-- Moves on to row `y`: edges that end here leave, edges that start here enter, and the
order is restored. -/
def activate (top y : Int) : Rasterizer :=
  let entering := chain z.edges z.edges.size (z.table.getD (y - top).toNat none)
  { z with active := (z.active.filter (z.stays y) ++ entering).mergeSort z.le }

def rowSpans (y : Int) : List Span := (scanRow y none (z.crossings z.active)).spans

def advance : Rasterizer :=
  { z with
    edges := z.active.foldl
      (fun edges i => edges.modify i fun e => { e with toCrossing := e.toCrossing.advance })
      z.edges }

def sweep (top : Int) : (count : Nat) → (y : Int) → Rasterizer → Plane → Plane × Rasterizer
  | 0, _, z, p => (p, z)
  | count + 1, y, z, p =>
    let z := z.activate top y
    sweep top count (y + 1) z.advance (p.xorSpans (z.rowSpans y))

/-- Toggles the inside of a polygon. With `clear`, the plane is made dark first, even if
there is nothing to fill. -/
def fill (p : Plane) (vertices : List Vertex) (clear : Bool) : Plane × Rasterizer :=
  let p := if clear then p.clear else p
  let edges := outline z.placement vertices
  match rowRange? edges with
  | none => (p, { z with edges := #[] })
  | some (top, bottom) =>
    sweep top ((bottom - top).toNat + 1) top (z.build edges top bottom) p

/-- What filling has to say, if the polygon has edges. -/
def fillNotice? (p : Plane) (vertices : List Vertex) : Option Notice :=
  let edges := outline z.placement vertices
  (rowRange? edges).map fun (top, bottom) =>
    ⟨.trace, .raster, s!"fill plane {p.index.toNat}: {edges.length} edges, " ++
      s!"rows {top}..={bottom}"⟩

end Rasterizer

end Bitplane
