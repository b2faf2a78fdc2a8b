import Bitplane.Proofs.Fill.Bounds

/-! # The row loop

What the loop over the rows of an outline can rely on. The edge table has a chain for every
row, and each edge is in one of them. When a row is scanned, the edges that cross it are active
once each, from left to right and at their exact places; their number is even, so that the
scan ends outside the polygon.
-/

namespace Bitplane.Rasterizer

/-! ## The table -/

/-- The numbers that the chain of a slot of the table leads through. -/
def ChainAt (z : Rasterizer) (slot : Nat) (numbers : List Nat) : Prop :=
  ∃ first, z.table[slot]? = some first ∧ Chained z.edges first numbers

/-- The edges of an outline in the buffers, and a table with a slot for each row from `top` to
`bottom`: the chain of a slot ends, comes down in the numbers of the edges, and leads through
those that start on its row. -/
structure Tabled (edges : List Edge) (top bottom : Int) (z : Rasterizer) : Prop where
  edge_eq : ∀ i : Nat, z.edges[i]?.map (·.edge) = edges[i]?
  size_table : z.table.size = (bottom - top).toNat + 1
  exists_chainAt : ∀ slot < z.table.size, ∃ numbers, z.ChainAt slot numbers ∧
    numbers.Pairwise (· > ·) ∧
    ∀ i : Nat, i ∈ numbers ↔ ∃ e, edges[i]? = some e ∧ e.top.y = top + slot
  existsUnique_slot : ∀ i < edges.length, ∃! slot, ∃ numbers, z.ChainAt slot numbers ∧ i ∈ numbers

variable {edges : List Edge} {top bottom y : Int} {z : Rasterizer}

theorem ChainAt.lt {slot : Nat} {numbers : List Nat} (h : z.ChainAt slot numbers) :
    slot < z.table.size := by
  obtain ⟨first, hfirst, -⟩ := h
  exact (Array.getElem?_eq_some_iff.mp hfirst).1

theorem ChainAt.unique {slot : Nat} {numbers others : List Nat} (h : z.ChainAt slot numbers)
    (h' : z.ChainAt slot others) : numbers = others := by
  obtain ⟨first, hfirst, hchain⟩ := h
  obtain ⟨_, hsame, hchain'⟩ := h'
  obtain rfl := Option.some.inj (hfirst.symm.trans hsame)
  rw [← hchain.chain_eq (le_max_left _ others.length), hchain'.chain_eq (le_max_right ..)]

namespace Linked

variable (h : Linked edges top bottom edges.length z) (hrows : InRows edges top bottom)

include h hrows

theorem chainAt {slot : Nat} (hslot : slot < z.table.size) :
    z.ChainAt slot (numbersOf edges fun e => e.top.y = top + slot).reverse := by
  have hsize := h.size_table
  have hlt := hrows.top_lt_bottom
  have hchain := h.chained_row hrows (show top ≤ top + slot by omega) (by omega)
  have hrow : (top + slot - top).toNat = slot := by omega
  rw [hrow, Array.getD_eq_getD_getElem?, Array.getElem?_eq_getElem hslot, Option.getD_some]
    at hchain
  exact ⟨_, Array.getElem?_eq_getElem hslot, hchain⟩

theorem mem_of_chainAt {slot : Nat} {numbers : List Nat} (hchain : z.ChainAt slot numbers)
    {i : Nat} : i ∈ numbers ↔ ∃ e, edges[i]? = some e ∧ e.top.y = top + slot := by
  rw [hchain.unique (h.chainAt hrows hchain.lt), List.mem_reverse, mem_numbersOf]
  simp only [decide_eq_true_eq]

theorem tabled : Tabled edges top bottom z where
  edge_eq := (h.ready hrows).edge_eq
  size_table := h.size_table
  exists_chainAt slot hslot :=
    ⟨_, h.chainAt hrows hslot, pairwise_reverse_numbersOf, fun _ =>
      h.mem_of_chainAt hrows (h.chainAt hrows hslot)⟩
  existsUnique_slot i hi := by
    have he := List.getElem?_eq_getElem hi
    have htop := hrows.top_le _ (List.getElem_mem hi)
    have hbottom := hrows.le_bottom _ (List.getElem_mem hi)
    have hlt := edges[i].top_lt_bottom
    have hslot : (edges[i].top.y - top).toNat < z.table.size := by
      rw [h.size_table]
      omega
    have hchain := h.chainAt hrows hslot
    refine ⟨_, ⟨_, hchain, (h.mem_of_chainAt hrows hchain).mpr ⟨_, he, by omega⟩⟩, ?_⟩
    rintro slot ⟨numbers, hother, hmem⟩
    obtain ⟨e, he', hrow⟩ := (h.mem_of_chainAt hrows hother).mp hmem
    obtain rfl := Option.some.inj (he.symm.trans he')
    omega

end Linked

/-! ## The rows -/

/-- The buffers when row `y` of an outline is scanned: the edges that cross the row are active,
each once, from left to right and each at its exact place, and no span stays open. -/
structure Scanned (edges : List Edge) (y : Int) (w : Rasterizer) : Prop where
  edge_eq : ∀ i : Nat, w.edges[i]?.map (·.edge) = edges[i]?
  nodup_active : w.active.Nodup
  mem_active_iff : ∀ i : Nat, i ∈ w.active ↔
    ∃ e, edges[i]? = some e ∧ e.top.y ≤ y ∧ y < e.bottom.y
  ordered : w.active.Pairwise fun i j => ∀ e f, edges[i]? = some e → edges[j]? = some f →
    e.column y ≤ f.column y
  num_eq : ∀ i ∈ w.active, ∀ c, w.edges[i]? = some c →
    c.num = c.edge.top.x * c.edge.dy + (y - c.edge.top.y) * c.edge.dx
  even_active : Even w.active.length
  unclosed_eq : (w.scan y).unclosed = none

namespace Ready

variable (h : Ready edges top bottom y z) (htop : top ≤ y) (hbottom : y ≤ bottom)

include h htop hbottom

theorem crossing_of_mem_active {i : Nat} (hi : i ∈ (z.activate top y).active) {e : Edge}
    (he : edges[i]? = some e) : z.edges[i]?.map (·.toCrossing) = some (crossingOn y e) := by
  obtain ⟨c, hc, rfl⟩ := h.getElem?_eq he
  rw [hc, Option.map_some, crossingOn, ← h.num_of_mem_active htop hbottom hc hi]

theorem ordered_active : (z.activate top y).active.Pairwise fun i j => ∀ e f,
    edges[i]? = some e → edges[j]? = some f → e.column y ≤ f.column y := by
  have horder := h.scanOrder htop hbottom
  rw [crossings, List.pairwise_filterMap] at horder
  refine horder.imp_of_mem fun {i j} hi hj hij e f he hf => ?_
  have hplaces := hij _ (h.crossing_of_mem_active htop hbottom hi he) _
    (h.crossing_of_mem_active htop hbottom hj hf)
  rw [← place_crossingOn, ← place_crossingOn]
  exact hplaces.1

theorem scanned (heven : Even (edges.countP fun e => e.Crosses y)) :
    Scanned edges y (z.activate top y) where
  edge_eq := h.edge_eq
  nodup_active := (h.activate_perm htop hbottom).nodup_iff.mpr nodup_numbersOf
  mem_active_iff i := by
    rw [(h.activate_perm htop hbottom).mem_iff, mem_numbersOf]
    simp only [decide_eq_true_eq]
    rfl
  ordered := h.ordered_active htop hbottom
  num_eq i hi c hc := h.num_of_mem_active htop hbottom hc hi
  even_active := by
    rw [(h.activate_perm htop hbottom).length_eq, length_numbersOf]
    exact heven
  unclosed_eq := by
    refine unclosed_scanRow ?_
    have hcrossings := (h.crossings_perm htop hbottom).length_eq
    rw [List.length_map, ← List.countP_eq_length_filter] at hcrossings
    exact hcrossings ▸ heven

end Ready

theorem scanned_of_mem_rows {placement : Placement} {vertices : List Vertex} {w : Rasterizer}
    (hmem : (y, w) ∈ rows placement vertices) : Scanned (outline placement vertices) y w := by
  obtain ⟨_, _, v, hswept, htop, hbottom, rfl⟩ := exists_swept_of_mem_rows hmem
  exact hswept.scanned htop hbottom (even_crosses placement vertices y)

/-- What the loop of a fill relies on. The table that is built has a slot for every row of the
outline, with a chain that ends, comes down in the numbers of the edges and leads through just
the edges that start on the row, so that each edge is in one chain. The rows are scanned one
after the other, from the first to the last, and each with just the edges active that cross it,
once each, in the order of their exact columns and at their exact places; their number is even,
and the scan leaves no span open. The spans of those scans are what is drawn, and an outline
without edges has none. -/
theorem sweep_scans_edges_of_rows (z : Rasterizer) (p : Plane) (vertices : List Vertex)
    (clear : Bool) :
    let edges := outline z.placement vertices
    (∀ top bottom, rowRange? edges = some (top, bottom) →
      let built := z.build edges top bottom
      Tabled edges top bottom built ∧
      rows z.placement vertices = rowsFrom top ((bottom - top).toNat + 1) top built ∧
      (rows z.placement vertices).map Prod.fst =
        (List.range ((bottom - top).toNat + 1)).map fun k : Nat => top + k) ∧
    (rowRange? edges = none → edges = [] ∧ rows z.placement vertices = []) ∧
    (∀ y w, (y, w) ∈ rows z.placement vertices → Scanned edges y w) ∧
    (z.fill p vertices clear).1 = (if clear then p.clear else p).xorSpans
      ((rows z.placement vertices).flatMap fun (y, w) => (w.scan y).spans) := by
  intro edges
  refine ⟨fun top bottom hrange => ?table, fun hnone => ?nothing,
    fun y w hrow => scanned_of_mem_rows hrow, ?drawn⟩
  case table =>
    intro built
    have hrows := z.rows_eq_rowsFrom hrange
    refine ⟨(linked_build z edges top bottom).tabled (inRows_of_rowRange? hrange), hrows, ?_⟩
    rw [hrows, map_fst_rowsFrom]
  case nothing =>
    refine ⟨eq_nil_of_rowRange? hnone, ?_⟩
    rw [rows]
    simp only [edges] at hnone
    simp only [hnone]
  case drawn =>
    rw [fill_fst, Plane.fill, spans_eq_flatMap]

/-- The row of a tip that stands on an edge: the edge comes from above, and the chain of the row
brings those of the tip. -/
theorem sweep_scans_row_of_tip :
    let z := ofPlacement .identity
    let vertices : List Vertex := [⟨0, 0⟩, ⟨4, 4⟩, ⟨4, 0⟩, ⟨2, 2⟩, ⟨4, 1⟩]
    let edges := outline z.placement vertices
    let built := z.build edges 0 4
    let w := (((built.activate 0 0).advance.activate 0 1).advance).activate 0 2
    rowRange? edges = some (0, 4) ∧
      (∃ numbers, built.ChainAt 2 numbers ∧ numbers.Pairwise (· > ·) ∧ 1 ∈ numbers) ∧
      (2, w) ∈ rows z.placement vertices ∧ 0 ∈ w.active ∧ 1 ∈ w.active ∧ w.active.Nodup ∧
      Even w.active.length ∧ (w.scan 2).unclosed = none := by
  intro z vertices edges built w
  have hrange : rowRange? edges = some (0, 4) := by decide +kernel
  obtain ⟨htable, -, hscanned, -⟩ :=
    z.sweep_scans_edges_of_rows (.dark 0 8 8 8) vertices false
  obtain ⟨htabled, hrows, -⟩ := htable 0 4 hrange
  obtain ⟨numbers, hchain, hdown, hmem⟩ := htabled.exists_chainAt 2 (by
    rw [htabled.size_table]
    decide)
  have hzero : edges[0]? = some ⟨⟨0, 0⟩, ⟨4, 4⟩, by decide⟩ := by decide +kernel
  have hone : edges[1]? = some ⟨⟨2, 2⟩, ⟨4, 0⟩, by decide⟩ := by decide +kernel
  have hrow : (2, w) ∈ rows z.placement vertices := by
    rw [hrows]
    exact .tail _ (.tail _ (.head _))
  have hw := hscanned 2 w hrow
  exact ⟨hrange, ⟨numbers, hchain, hdown, (hmem 1).mpr ⟨_, hone, rfl⟩⟩, hrow,
    (hw.mem_active_iff 0).mpr ⟨_, hzero, by decide⟩,
    (hw.mem_active_iff 1).mpr ⟨_, hone, by decide⟩, hw.nodup_active, hw.even_active,
    hw.unclosed_eq⟩

end Bitplane.Rasterizer
