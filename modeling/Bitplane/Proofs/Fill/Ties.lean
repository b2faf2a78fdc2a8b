import Bitplane.Proofs.Fill.Buffers
import Bitplane.Proofs.Fill.Rows
import Mathlib.Data.List.Sort

/-! # The order of edges

The order in which the edges of an outline are listed decides how chains run and how the
sort arranges crossings that tie. None of it shows: the same places are left on each row
once tips are dropped, so the spans are the same.
-/

namespace Bitplane

section Scan

variable {y : Int} {cs ds : List Crossing}

theorem count_place_dropTips (h : cs.Pairwise (ScanOrder y)) (q : ℚ) :
    ((dropTips y cs).map Crossing.place).count q =
      cs.countP (fun c => ¬c.StartsOn y ∧ c.place = q) +
        cs.countP (fun c => c.StartsOn y ∧ c.place = q) % 2 := by
  rw [← countP_dropTips_place h, List.count_eq_countP, List.countP_map]
  rfl

theorem pairwise_place_dropTips (h : cs.Pairwise (ScanOrder y)) :
    ((dropTips y cs).map Crossing.place).Pairwise (· ≤ ·) :=
  List.pairwise_map.mpr ((h.sublist (dropTips_sublist y cs)).imp And.left)

/-- What is left of a row when its tips are dropped hangs on its crossings, not on how those
that tie are arranged. -/
theorem map_place_dropTips (hperm : cs.Perm ds) (hcs : cs.Pairwise (ScanOrder y))
    (hds : ds.Pairwise (ScanOrder y)) :
    (dropTips y cs).map Crossing.place = (dropTips y ds).map Crossing.place := by
  refine List.Perm.eq_of_pairwise' (pairwise_place_dropTips hcs) (pairwise_place_dropTips hds)
    (List.perm_iff_count.mpr fun q => ?_)
  rw [count_place_dropTips hcs, count_place_dropTips hds, hperm.countP_eq, hperm.countP_eq]

theorem pairUp_eq_of_map_place (h : cs.map Crossing.place = ds.map Crossing.place)
    (start : Option Int) : pairUp y start cs = pairUp y start ds := by
  induction cs generalizing start ds with
  | nil =>
    obtain rfl : ds = [] := by simpa using h.symm
    rfl
  | cons c rest ih =>
    cases ds with
    | nil => simp at h
    | cons d others =>
      obtain ⟨hplace, hrest⟩ := List.cons.inj h
      cases start with
      | none => rw [pairUp, pairUp, Crossing.ceil_eq_of_place c d hplace, ih hrest]
      | some first => rw [pairUp, pairUp, Crossing.floor_eq_of_place c d hplace, ih hrest]

theorem scanRow_eq_of_perm (hperm : cs.Perm ds) (hcs : cs.Pairwise (ScanOrder y))
    (hds : ds.Pairwise (ScanOrder y)) (start : Option Int) :
    scanRow y start cs = scanRow y start ds := by
  rw [scanRow_eq_pairUp, scanRow_eq_pairUp]
  exact pairUp_eq_of_map_place (map_place_dropTips hperm hcs hds) start

end Scan

theorem rowRange?_eq_of_perm {edges others : List Edge} (h : edges.Perm others) :
    rowRange? edges = rowRange? others := by
  have htop : (edges.map (·.top.y)).min? = (others.map (·.top.y)).min? :=
    Option.ext fun row => by simp only [List.min?_eq_some_iff, (h.map _).mem_iff]
  have hbottom : (edges.map (·.bottom.y)).max? = (others.map (·.bottom.y)).max? :=
    Option.ext fun row => by simp only [List.max?_eq_some_iff, (h.map _).mem_iff]
  rw [rowRange?, rowRange?, htop, hbottom]

namespace Rasterizer

section Rows

variable {edges others : List Edge} {top bottom row : Int} {z w : Rasterizer}

theorem Ready.rowSpans_eq (hz : Ready edges top bottom row z) (hw : Ready others top bottom row w)
    (hperm : edges.Perm others) (htop : top ≤ row) (hbottom : row ≤ bottom) :
    (z.activate top row).rowSpans row = (w.activate top row).rowSpans row := by
  have hcrossings : (z.crossings (z.activate top row).active).Perm
      (w.crossings (w.activate top row).active) :=
    (hz.crossings_perm htop hbottom).trans
      (((hperm.filter _).map _).trans (hw.crossings_perm htop hbottom).symm)
  exact congrArg Scan.spans (scanRow_eq_of_perm hcrossings (hz.scanOrder htop hbottom)
    (hw.scanOrder htop hbottom) none)

theorem Ready.spansFrom_eq (hz : Ready edges top bottom row z) (hw : Ready others top bottom row w)
    (hperm : edges.Perm others) {count : Nat} (htop : top ≤ row)
    (hcount : row + count = bottom + 1) :
    spansFrom top count row z = spansFrom top count row w := by
  induction count generalizing row z w with
  | zero => rfl
  | succ count ih =>
    have hbottom : row ≤ bottom := by omega
    rw [spansFrom, spansFrom, hz.rowSpans_eq hw hperm htop hbottom,
      ih (hz.advance htop hbottom) (hw.advance htop hbottom) (by omega) (by omega)]

end Rows

theorem spans_eq_of_perm {placement placement' : Placement} {vertices vertices' : List Vertex}
    (h : (outline placement vertices).Perm (outline placement' vertices')) :
    spans placement vertices = spans placement' vertices' := by
  unfold spans
  dsimp only
  rw [rowRange?_eq_of_perm h]
  cases hrange : rowRange? (outline placement' vertices') with
  | none => rfl
  | some rows =>
    obtain ⟨top, bottom⟩ := rows
    have hrows' := inRows_of_rowRange? hrange
    have hrows := inRows_of_rowRange? ((rowRange?_eq_of_perm h).trans hrange)
    have hlt := hrows.top_lt_bottom
    exact ((linked_build _ _ top bottom).ready hrows).spansFrom_eq
      ((linked_build _ _ top bottom).ready hrows') h le_rfl (by omega)

end Rasterizer

end Bitplane
