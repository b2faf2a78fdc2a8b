import Bitplane.Outline

/-! # Scanning a row

The edges that cross a row are scanned from left to right and paired up into
spans. Each crosses at an exact fraction, the numerator of which grows by the
edge's `dx` per row.
-/

namespace Bitplane

/-- The range of the coordinates that a plane can be asked about. -/
def clampCoordinate (value : Int) : Int := max (-2147483648) (min value 2147483647)

/-- An edge on a row that it crosses, at column `num / dy`. -/
structure Crossing where
  edge : Edge
  num : Int
  deriving DecidableEq, Repr

namespace Crossing

def enter (edge : Edge) : Crossing := ⟨edge, edge.top.x * edge.dy⟩

def advance (c : Crossing) : Crossing := { c with num := c.num + c.edge.dx }

/-- The first column that is not left of the crossing. -/
def ceil (c : Crossing) : Int :=
  let q := c.num / c.edge.dy
  clampCoordinate (if c.num % c.edge.dy = 0 then q else q + 1)

/-- The last column that is not right of the crossing. -/
def floor (c : Crossing) : Int := clampCoordinate (c.num / c.edge.dy)

def le (a b : Crossing) : Bool := a.num * b.edge.dy ≤ b.num * a.edge.dy

def meets (a b : Crossing) : Bool := a.num * b.edge.dy == b.num * a.edge.dy

end Crossing

structure Span where
  y : Int
  first : Int
  last : Int
  deriving DecidableEq, Repr

/-- What a scan of a row gives: its spans, and the first column of a span that no
crossing closed. -/
structure Scan where
  spans : List Span
  unclosed : Option Int

/-- Pairs the crossings of a row up from left to right. A span is open if `start`
holds its first column. Two edges that start at one point of this row form a tip,
which covers no pixel, and are passed over. -/
def scanRow (y : Int) : (start : Option Int) → List Crossing → Scan
  | start, [] => ⟨[], start⟩
  | none, [c] => ⟨[], some c.ceil⟩
  | some first, [c] => ⟨[⟨y, first, c.floor⟩], none⟩
  | start, c :: d :: rest =>
    if c.edge.top.y = y ∧ d.edge.top.y = y ∧ c.meets d then scanRow y start rest
    else match start with
      | none => scanRow y (some c.ceil) (d :: rest)
      | some first =>
        let scan := scanRow y none (d :: rest)
        { scan with spans := ⟨y, first, c.floor⟩ :: scan.spans }

end Bitplane
