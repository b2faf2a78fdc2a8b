import Bitplane.Proofs.Fill.Parity
import Mathlib.Tactic.Linarith

/-! # Placed polygons

A placement scales and moves what a polygon fills: on the lattice of the placed source
pixels a fill is the one without a placement. A plane cuts nothing away but what lies
outside its drawable area.
-/

namespace Bitplane

namespace Placement

variable (p : Placement)

theorem apply_identity (v : Vertex) : identity.apply v = v := by
  simp [apply, identity]

variable {p}

theorem apply_y_lt_iff (hscale : 0 < p.scale) {a b : Int} :
    a * p.scale + p.y < b * p.scale + p.y ↔ a < b := by
  rw [Int.add_lt_add_iff_right, Int.mul_lt_mul_right hscale]

end Placement

namespace Edge

variable {p : Placement} (hscale : 0 < p.scale) (e : Edge) (x y : Int)

def placed : Edge where
  top := p.apply e.top
  bottom := p.apply e.bottom
  top_lt_bottom := (Placement.apply_y_lt_iff hscale).mpr e.top_lt_bottom

theorem between?_apply (a b : Vertex) :
    between? (p.apply a) (p.apply b) = (between? a b).map (placed hscale) := by
  have hlt (a b : Vertex) : (p.apply a).y < (p.apply b).y ↔ a.y < b.y :=
    Placement.apply_y_lt_iff hscale
  unfold between?
  by_cases hab : a.y < b.y
  · simp [hab, hlt, placed]
  · by_cases hba : b.y < a.y
    · simp [hab, hba, hlt, placed]
    · simp [hab, hba, hlt]

theorem placed_crosses : (e.placed hscale).Crosses (y * p.scale + p.y) ↔ e.Crosses y := by
  have htop := Placement.apply_y_lt_iff hscale (a := y) (b := e.top.y)
  have hbottom := Placement.apply_y_lt_iff hscale (a := y) (b := e.bottom.y)
  simp only [Crosses, placed, Placement.apply]
  rw [← Int.not_lt, ← Int.not_lt, htop, hbottom]

theorem column_placed :
    (e.placed hscale).column (y * p.scale + p.y) = e.column y * p.scale + p.x := by
  have hscale' : (p.scale : ℚ) ≠ 0 := by exact_mod_cast hscale.ne'
  have hy : (e.bottom.y : ℚ) - e.top.y ≠ 0 := by
    exact_mod_cast sub_ne_zero.mpr (ne_of_gt e.top_lt_bottom)
  have hdy : ((e.bottom.y * p.scale + p.y : ℤ) : ℚ) - (e.top.y * p.scale + p.y : ℤ) =
      (e.bottom.y - e.top.y) * p.scale := by
    push_cast
    ring
  simp only [column, placed, Placement.apply]
  rw [hdy]
  push_cast
  field_simp
  ring

end Edge

section Outline

variable {p : Placement} (hscale : 0 < p.scale)

theorem sides_map {f : Vertex → Vertex} (points : List Vertex) :
    sides (points.map f) = (sides points).map (Prod.map f f) := by
  rw [sides, sides, ← List.zip_map, List.map_append, List.map_tail, List.map_take]

theorem outline_eq_map_placed (vertices : List Vertex) :
    outline p vertices = (outline .identity vertices).map (Edge.placed hscale) := by
  have hidentity : vertices.map Placement.identity.apply = vertices := by
    rw [funext Placement.apply_identity]
    exact List.map_id _
  rw [outline, outline, hidentity, sides_map, List.filterMap_map, List.map_filterMap]
  exact congrArg (List.filterMap · _) (funext fun side => Edge.between?_apply hscale side.1 side.2)

/-- A pixel of the source lattice is covered as often as its source pixel. -/
theorem coverage_placed (edges : List Edge) (x y : Int) :
    coverage (edges.map (Edge.placed hscale)) (x * p.scale + p.x) (y * p.scale + p.y) =
      coverage edges x y := by
  have hscale' : (0 : ℚ) < p.scale := by exact_mod_cast hscale
  have hlt (e : Edge) : (e.placed hscale).column (y * p.scale + p.y) <
      ((x * p.scale + p.x : ℤ) : ℚ) ↔ e.column y < (x : ℚ) := by
    rw [e.column_placed hscale]
    push_cast
    rw [add_lt_add_iff_right, mul_lt_mul_iff_left₀ hscale']
  have heq (e : Edge) : (e.placed hscale).column (y * p.scale + p.y) =
      ((x * p.scale + p.x : ℤ) : ℚ) ↔ e.column y = (x : ℚ) := by
    rw [e.column_placed hscale]
    push_cast
    rw [add_left_inj, mul_left_inj' hscale'.ne']
  have hbelow (e : Edge) : (e.placed hscale).top.y < y * p.scale + p.y ↔ e.top.y < y :=
    Placement.apply_y_lt_iff hscale
  have hstart (e : Edge) : (e.placed hscale).top.y = y * p.scale + p.y ↔ e.top.y = y := by
    simp only [Edge.placed, Placement.apply]
    rw [add_left_inj, mul_left_inj' hscale.ne']
  simp only [coverage, crossedLeft, crossedThrough, startedAt, List.countP_map,
    Function.comp_def, Edge.placed_crosses, hlt, heq, hbelow, hstart]

end Outline

/-- The pixels that a polygon under a placement toggles wherever they can be drawn. -/
def filled (p : Placement) (vertices : List Vertex) : Set (Int × Int) :=
  {pixel | Odd (coverage (outline p vertices) pixel.1 pixel.2)}

theorem mem_filled_iff {p : Placement} {vertices : List Vertex} {x y : Int} :
    (x, y) ∈ filled p vertices ↔ Odd (coverage (outline p vertices) x y) := Iff.rfl

theorem mem_filled_placed {p : Placement} (hscale : 0 < p.scale) (vertices : List Vertex)
    (x y : Int) : (x * p.scale + p.x, y * p.scale + p.y) ∈ filled p vertices ↔
      (x, y) ∈ filled .identity vertices := by
  rw [mem_filled_iff, mem_filled_iff, outline_eq_map_placed hscale, coverage_placed]

theorem filled_of_scale_eq_one {p : Placement} (hscale : p.scale = 1) (vertices : List Vertex) :
    filled p vertices = (fun (x, y) => (x + p.x, y + p.y)) '' filled .identity vertices := by
  have hpos : 0 < p.scale := by omega
  ext ⟨x, y⟩
  constructor
  · intro h
    refine ⟨(x - p.x, y - p.y), ?_, by simp⟩
    rw [← mem_filled_placed hpos, hscale]
    simpa using h
  · rintro ⟨⟨x', y'⟩, hmem, hmoved⟩
    rw [← mem_filled_placed hpos, hscale, Int.mul_one, Int.mul_one] at hmem
    exact hmoved ▸ hmem

namespace Plane

def Draws (p : Plane) (x y : Int) : Prop := 0 ≤ x ∧ x < p.width ∧ 0 ≤ y ∧ y < p.height

instance (p : Plane) (x y : Int) : Decidable (p.Draws x y) :=
  inferInstanceAs (Decidable (_ ∧ _ ∧ _ ∧ _))

/-- Whether the byte of a pixel is the other one by the pen in a later plane. -/
def Toggled (p q : Plane) (x y : Int) : Prop :=
  ∃ place byte, p.address? x y = some place ∧ p.data[place]? = some byte ∧
    q.data[place]? = some (byte ^^^ p.pen)

variable {p : Plane} {x y : Int}

theorem Draws.exists_natCast (h : p.Draws x y) :
    ∃ column row : Nat, x = column ∧ y = row ∧ column < p.width ∧ row < p.height := by
  obtain ⟨hx, hwidth, hy, hheight⟩ := h
  exact ⟨x.toNat, y.toNat, by omega, by omega, by omega, by omega⟩

theorem xor_pen_ne (p : Plane) (byte : UInt8) : byte ^^^ p.pen ≠ byte := by
  intro h
  refine p.pen_ne_zero ?_
  rw [← UInt8.xor_right_inj byte, h, UInt8.xor_zero]

end Plane

namespace Rasterizer

variable (z : Rasterizer) {p : Plane} {x y : Int}

/-- A fill toggles the pixels of its plane that are filled, and no other. -/
theorem toggled_fill_iff (hwhole : p.IsWhole) (hwidth : p.width < 2147483648)
    (vertices : List Vertex) (h : p.Draws x y) :
    p.Toggled (z.fill p vertices false).1 x y ↔ (x, y) ∈ filled z.placement vertices := by
  obtain ⟨column, row, rfl, rfl, hcolumn, hrow⟩ := h.exists_natCast
  have haddress := hwhole.address?_natCast hcolumn hrow
  obtain ⟨byte, hbyte⟩ : ∃ byte, p.data[row * p.stride + column]? = some byte :=
    ⟨_, Array.getElem?_eq_getElem (hwhole.place_lt_size hcolumn hrow)⟩
  have hfill := z.getElem?_fill_place hwhole hwidth vertices hcolumn hrow
  rw [hbyte, Option.map_some, Plane.toggled] at hfill
  rw [mem_filled_iff]
  constructor
  · rintro ⟨place, old, hplace, hold, hnew⟩
    obtain rfl := Option.some.inj (haddress.symm.trans hplace)
    obtain rfl := Option.some.inj (hbyte.symm.trans hold)
    by_contra hout
    rw [hfill, if_neg hout, Option.some.injEq] at hnew
    exact p.xor_pen_ne byte hnew.symm
  · intro hin
    rw [if_pos hin] at hfill
    exact ⟨_, byte, haddress, hbyte, hfill⟩

theorem getElem?_fill_of_notMem (hwhole : p.IsWhole) (hwidth : p.width < 2147483648)
    (vertices : List Vertex) {i : Nat}
    (h : ∀ x y, p.address? x y = some i → (x, y) ∉ filled z.placement vertices) :
    (z.fill p vertices false).1.data[i]? = p.data[i]? := by
  rcases p.place_or_padding i with ⟨column, row, hcolumn, hrow, rfl⟩ | hpadding
  · have hout : ¬Odd (coverage (outline z.placement vertices) column row) :=
      h column row (hwhole.address?_natCast hcolumn hrow)
    have hsame : Plane.toggled p.pen (coverage (outline z.placement vertices) column row) = id :=
      funext fun _ => if_neg hout
    rw [z.getElem?_fill_place hwhole hwidth vertices hcolumn hrow, hsame, Option.map_id_fun, id]
  · rw [z.fill_fst]
    exact hwhole.getElem?_xorSpans_padding _ hpadding

/-- Filling and placing commute. Where a source pixel and its placed pixel can both be drawn,
the fill under the placement toggles the one exactly if the fill without a placement toggles
the other, whatever the planes and the buffers hold. Behind that are the filled pixels of the
two, which agree on the whole lattice, negative coordinates too, and without a scale are
moved as they are. Of these a whole plane gets all that it can draw and nothing else. -/
theorem fill_commutes_with_placement (vertices : List Vertex) (z z' : Rasterizer)
    (hidentity : z.placement = .identity) (hscale : 1 ≤ z'.placement.scale) (p p' : Plane)
    (hwidth : p.width < 2147483648) (hwidth' : p'.width < 2147483648) :
    let placement := z'.placement
    let placed (x y : Int) : Int × Int :=
      (placement.scale * x + placement.x, placement.scale * y + placement.y)
    let q := (z.fill p vertices false).1
    let q' := (z'.fill p' vertices false).1
    (p.IsWhole → p'.IsWhole → ∀ x y, p.Draws x y → p'.Draws (placed x y).1 (placed x y).2 →
      (p'.Toggled q' (placed x y).1 (placed x y).2 ↔ p.Toggled q x y)) ∧
    (∀ x y, placed x y ∈ filled placement vertices ↔ (x, y) ∈ filled .identity vertices) ∧
    (placement.scale = 1 → filled placement vertices =
      (fun (x, y) => (x + placement.x, y + placement.y)) '' filled .identity vertices) ∧
    (p'.IsWhole → ∀ x y, p'.Draws x y →
      (p'.Toggled q' x y ↔ (x, y) ∈ filled placement vertices)) ∧
    (p'.IsWhole → ∀ i, (∀ x y, p'.address? x y = some i → (x, y) ∉ filled placement vertices) →
      q'.data[i]? = p'.data[i]?) := by
  intro placement placed q q'
  have hlattice (x y : Int) :
      placed x y ∈ filled placement vertices ↔ (x, y) ∈ filled .identity vertices := by
    simp only [placed]
    rw [Int.mul_comm, Int.mul_comm _ y]
    exact mem_filled_placed (Int.lt_of_lt_of_le Int.zero_lt_one hscale) vertices x y
  refine ⟨fun hwhole hwhole' x y hx hx' => ?pixel, hlattice,
    fun hone => filled_of_scale_eq_one hone vertices,
    fun hwhole' x y => z'.toggled_fill_iff hwhole' hwidth' vertices,
    fun hwhole' i => z'.getElem?_fill_of_notMem hwhole' hwidth' vertices⟩
  case pixel =>
    rw [z'.toggled_fill_iff hwhole' hwidth' vertices hx',
      z.toggled_fill_iff hwhole hwidth vertices hx, hidentity]
    exact hlattice x y

/-- A triangle twice as large, of which the plane does not show the first columns. -/
theorem fill_places_clipped_triangle :
    let vertices : List Vertex := [⟨0, 0⟩, ⟨0, 4⟩, ⟨4, 0⟩]
    let z := ofPlacement .identity
    let z' := ofPlacement ⟨2, -3, 5⟩
    let p := Plane.dark 0 8 8 8
    let p' := Plane.dark 2 6 16 9
    p.IsWhole ∧ p'.IsWhole ∧ p.Draws 2 1 ∧ p'.Draws 1 7 ∧
      p.Toggled (z.fill p vertices false).1 2 1 ∧
      p'.Toggled (z'.fill p' vertices false).1 1 7 := by
  intro vertices z z' p p'
  have hwhole : p.IsWhole := by decide
  have hwhole' : p'.IsWhole := by decide
  have hdraws : p.Draws 2 1 := by decide
  have hdraws' : p'.Draws 1 7 := by decide
  have hodd : Odd (coverage (outline .identity vertices) 2 1) := by decide +kernel
  have htoggled : p.Toggled (z.fill p vertices false).1 2 1 :=
    (z.toggled_fill_iff hwhole (by decide) vertices hdraws).mpr hodd
  obtain ⟨hpixel, -⟩ := fill_commutes_with_placement vertices z z' rfl (by decide) p p'
    (by decide) (by decide)
  exact ⟨hwhole, hwhole', hdraws, hdraws', htoggled,
    (hpixel hwhole hwhole' 2 1 hdraws hdraws').mpr htoggled⟩

end Rasterizer

end Bitplane
