import Bitplane.Proofs.Fill.Buffers
import Bitplane.Proofs.Fill.Rows

/-! # The states of a sweep

A sweep scans row after row, each in the state to which the rows above have brought the
buffers. The state of every row is one of those that the invariant of the sweep describes.
-/

namespace Bitplane

def Crossing.BetweenEnds (c : Crossing) : Prop :=
  min (c.edge.top.x * c.edge.dy) (c.edge.bottom.x * c.edge.dy) ≤ c.num ∧
    c.num ≤ max (c.edge.top.x * c.edge.dy) (c.edge.bottom.x * c.edge.dy)

theorem Crossing.betweenEnds_iff {c : Crossing} : c.BetweenEnds ↔
    (min c.edge.top.x c.edge.bottom.x : Int) ≤ c.place ∧
      c.place ≤ (max c.edge.top.x c.edge.bottom.x : Int) := by
  have hdy := c.edge.dy_pos.le
  rw [BetweenEnds, ← min_mul_of_nonneg _ _ hdy, ← max_mul_of_nonneg _ _ hdy, le_place_iff,
    place_le_iff]

theorem Crossing.betweenEnds_of_num_eq {c : Crossing} {y : Int} (h : c.num = c.edge.numerator y)
    (htop : c.edge.top.y ≤ y) (hbottom : y ≤ c.edge.bottom.y) : c.BetweenEnds := by
  have hdy := c.edge.dy_pos.le
  rw [BetweenEnds, h, ← min_mul_of_nonneg _ _ hdy, ← max_mul_of_nonneg _ _ hdy]
  exact ⟨Edge.le_numerator htop hbottom (min_le_left ..) (min_le_right ..),
    Edge.numerator_le htop hbottom (le_max_left ..) (le_max_right ..)⟩

namespace Rasterizer

/-- The rows of a sweep from `y` on, each with the buffers as they are when it is scanned. -/
def rowsFrom (top : Int) : (count : Nat) → (y : Int) → Rasterizer → List (Int × Rasterizer)
  | 0, _, _ => []
  | count + 1, y, z =>
    let z := z.activate top y
    (y, z) :: rowsFrom top count (y + 1) z.advance

def rows (placement : Placement) (vertices : List Vertex) : List (Int × Rasterizer) :=
  let edges := outline placement vertices
  match rowRange? edges with
  | none => []
  | some (top, bottom) =>
    rowsFrom top ((bottom - top).toNat + 1) top ((ofPlacement placement).build edges top bottom)

/-- The scan of a row. -/
def scan (z : Rasterizer) (y : Int) : Scan := scanRow y none (z.crossings z.active)

theorem spansFrom_eq_flatMap (top : Int) (count : Nat) (y : Int) (z : Rasterizer) :
    spansFrom top count y z = (rowsFrom top count y z).flatMap fun (y, z) => (z.scan y).spans := by
  induction count generalizing y z with
  | zero => rfl
  | succ count ih => exact congrArg (_ ++ ·) (ih ..)

theorem spans_eq_flatMap (placement : Placement) (vertices : List Vertex) :
    spans placement vertices =
      (rows placement vertices).flatMap fun (y, z) => (z.scan y).spans := by
  unfold spans rows
  dsimp only
  cases rowRange? (outline placement vertices) with
  | none => rfl
  | some range => exact spansFrom_eq_flatMap ..

theorem map_fst_rowsFrom (top : Int) (count : Nat) (y : Int) (z : Rasterizer) :
    (rowsFrom top count y z).map Prod.fst = (List.range count).map fun k : Nat => y + k := by
  induction count generalizing y z with
  | zero => rfl
  | succ count ih =>
    rw [rowsFrom, List.map_cons, ih, List.range_succ_eq_map, List.map_cons, List.map_map]
    refine congrArg₂ _ (Int.add_zero y).symm (List.map_congr_left fun k _ => ?_)
    simp only [Function.comp_apply, Nat.succ_eq_add_one]
    omega

theorem rows_eq_rowsFrom (z : Rasterizer) {vertices : List Vertex} {top bottom : Int}
    (h : rowRange? (outline z.placement vertices) = some (top, bottom)) :
    rows z.placement vertices = rowsFrom top ((bottom - top).toNat + 1) top
      (z.build (outline z.placement vertices) top bottom) := by
  rw [rows, build_eq]
  simp only [h]

variable {edges : List Edge} {top bottom row y : Int} {z w : Rasterizer} {count : Nat}

/-- What one row of a sweep hands on to the next holds before each of them. -/
theorem exists_of_mem_rowsFrom {P : Int → Rasterizer → Prop}
    (hstep : ∀ y z, top ≤ y → y ≤ bottom → P y z → P (y + 1) (z.activate top y).advance)
    (h : P row z) (htop : top ≤ row) (hcount : row + count = bottom + 1)
    (hmem : (y, w) ∈ rowsFrom top count row z) :
    ∃ v, P y v ∧ top ≤ y ∧ y ≤ bottom ∧ w = v.activate top y := by
  induction count generalizing row z with
  | zero => cases hmem
  | succ count ih =>
    have hbottom : row ≤ bottom := by omega
    rcases List.mem_cons.mp hmem with heq | hlater
    · cases heq
      exact ⟨z, h, htop, hbottom, rfl⟩
    · exact ih (hstep row z htop hbottom h) (by omega) (by omega) hlater

/-- The buffers before row `y`, of which the table has a place for each row and every edge,
those that have ended too, is where it last crossed a row. -/
structure Swept (edges : List Edge) (top bottom y : Int) (z : Rasterizer) : Prop
    extends Ready edges top bottom y z where
  size_table : z.table.size = (bottom - top).toNat + 1
  num_eq_clamped : ∀ (i : Nat) (c : LinkedEdge), z.edges[i]? = some c →
    c.num = c.edge.numerator (max c.edge.top.y (min y c.edge.bottom.y))

theorem Linked.swept (h : Linked edges top bottom edges.length z)
    (hrows : InRows edges top bottom) : Swept edges top bottom top z where
  toReady := h.ready hrows
  size_table := h.size_table
  num_eq_clamped i c hc := by
    have hready := h.ready hrows
    have he : edges[i]? = some c.edge := by rw [← hready.edge_eq, hc, Option.map_some]
    have htop := hrows.top_le _ (List.mem_of_getElem? he)
    have hlt := c.edge.top_lt_bottom
    rw [hready.num_eq i c hc (by omega), min_eq_left (by omega), max_comm]

theorem Swept.advance (h : Swept edges top bottom y z) (htop : top ≤ y) (hbottom : y ≤ bottom) :
    Swept edges top bottom (y + 1) (z.activate top y).advance where
  toReady := h.toReady.advance htop hbottom
  size_table := h.size_table
  num_eq_clamped i c hc := by
    rw [h.getElem?_advance htop hbottom] at hc
    split at hc
    case isTrue hi =>
      obtain ⟨c', hc', rfl⟩ := Option.map_eq_some_iff.mp hc
      have hcross : c'.edge.top.y ≤ y ∧ y < c'.edge.bottom.y :=
        (h.mem_active_iff htop hbottom hc').mp hi
      simp only [Crossing.advance, h.num_of_mem_active htop hbottom hc' hi]
      rw [min_eq_left (by omega), max_eq_right (by omega), Edge.numerator_succ]
    case isFalse hi =>
      have hlt := c.edge.top_lt_bottom
      have hrow : max c.edge.top.y (min (y + 1) c.edge.bottom.y) =
          max c.edge.top.y (min y c.edge.bottom.y) := by
        rw [h.mem_active_iff htop hbottom hc] at hi
        simp only [Edge.Crosses] at hi
        omega
      rw [hrow, h.num_eq_clamped i c hc]

theorem Swept.betweenEnds (h : Swept edges top bottom y z) {i : Nat} {c : LinkedEdge}
    (hc : z.edges[i]? = some c) : c.BetweenEnds := by
  have hlt := c.edge.top_lt_bottom
  exact Crossing.betweenEnds_of_num_eq (h.num_eq_clamped i c hc) (by omega) (by omega)

theorem exists_swept_of_mem_rows {placement : Placement} {vertices : List Vertex}
    (hmem : (y, w) ∈ rows placement vertices) :
    ∃ top bottom v, Swept (outline placement vertices) top bottom y v ∧ top ≤ y ∧ y ≤ bottom ∧
      w = v.activate top y := by
  unfold rows at hmem
  dsimp only at hmem
  split at hmem
  case h_1 => cases hmem
  case h_2 top bottom hrange =>
    have hrows := inRows_of_rowRange? hrange
    have hlt := hrows.top_lt_bottom
    have hswept := (linked_build (ofPlacement placement) _ top bottom).swept hrows
    exact ⟨top, bottom, exists_of_mem_rowsFrom (fun y z htop hbottom h => h.advance htop hbottom)
      hswept le_rfl (by omega) hmem⟩

theorem crossings_perm_of_mem_rows {placement : Placement} {vertices : List Vertex}
    (hmem : (y, w) ∈ rows placement vertices) :
    (w.crossings w.active).Perm
      (((outline placement vertices).filter fun e => e.Crosses y).map (crossingOn y)) := by
  obtain ⟨top, bottom, v, hswept, htop, hbottom, rfl⟩ := exists_swept_of_mem_rows hmem
  exact hswept.crossings_perm htop hbottom

end Rasterizer

end Bitplane
