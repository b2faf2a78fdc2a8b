import Bitplane.Proofs.Fill.Bounds

/-! # Fills that fit a display

On a display that is not smaller than the source, the fitted placement puts every source
polygon inside the plane, so that a fill loses nothing. It is the largest scale at which the
source fits, and the placed source stands in the middle and on the bottom.
-/

namespace Bitplane

/-- Whether a vertex is on a column of the source, and on a row of it or the one behind. -/
def Vertex.InSource (v : Vertex) : Prop :=
  0 ≤ v.x ∧ v.x < sourceWidth ∧ 0 ≤ v.y ∧ v.y ≤ sourceHeight

def Plane.area (p : Plane) : Box := ⟨0, p.height, 0, p.width - 1⟩

namespace Placement

variable {width height : Int}

theorem fit_eq (hwidth : 0 ≤ width) (hheight : 0 ≤ height) :
    fit width height =
      let scale := max (min (width / 256) (height / 204)) 1
      ⟨scale, width / 2 - 128 * scale, height - 204 * scale⟩ := by
  simp only [fit, sourceWidth, sourceHeight, Int.tdiv_eq_ediv_of_nonneg hwidth,
    Int.tdiv_eq_ediv_of_nonneg hheight, Placement.mk.injEq, true_and, and_true]
  generalize hscale : max (min (width / 256) (height / 204)) 1 = scale
  rw [Int.tdiv_eq_ediv_of_nonneg (by omega)]
  omega

section Fits

variable (hwidth : sourceWidth ≤ width) (hheight : sourceHeight ≤ height)

include hwidth hheight

theorem x_fit : (fit width height).x = width / 2 - 128 * (fit width height).scale := by
  simp only [sourceWidth, sourceHeight] at hwidth hheight
  rw [fit_eq (by omega) (by omega)]

theorem y_fit : (fit width height).y = height - 204 * (fit width height).scale := by
  simp only [sourceWidth, sourceHeight] at hwidth hheight
  rw [fit_eq (by omega) (by omega)]

/-- The scales up to the fitted one are those at which the source fits. -/
theorem le_scale_fit_iff (scale : Int) : scale ≤ (fit width height).scale ↔
    sourceWidth * scale ≤ width ∧ sourceHeight * scale ≤ height := by
  simp only [sourceWidth, sourceHeight] at hwidth hheight ⊢
  rw [fit_eq (by omega) (by omega)]
  dsimp only
  omega

theorem scale_fit_pos : 1 ≤ (fit width height).scale := by
  rw [le_scale_fit_iff hwidth hheight, Int.mul_one, Int.mul_one]
  exact ⟨hwidth, hheight⟩

theorem encloses_apply_fit {v : Vertex} (hv : v.InSource) :
    Box.Encloses ⟨0, height, 0, width - 1⟩ ((fit width height).apply v) := by
  obtain ⟨hx, hx', hy, hy'⟩ := hv
  have hpos := scale_fit_pos hwidth hheight
  obtain ⟨hwide, hhigh⟩ := (le_scale_fit_iff hwidth hheight _).mp le_rfl
  simp only [Box.Encloses, apply, x_fit hwidth hheight, y_fit hwidth hheight]
  simp only [sourceWidth, sourceHeight] at hx' hy' hwide hhigh
  generalize (fit width height).scale = scale at hpos hwide hhigh
  have hscale : 0 ≤ scale := by omega
  have hleft : 0 ≤ v.x * scale := Int.mul_nonneg hx hscale
  have hright : v.x * scale ≤ 255 * scale := Int.mul_le_mul_of_nonneg_right (by omega) hscale
  have htop : 0 ≤ v.y * scale := Int.mul_nonneg hy hscale
  have hbottom : v.y * scale ≤ 204 * scale := Int.mul_le_mul_of_nonneg_right hy' hscale
  omega

end Fits

end Placement

/-! ## What a box encloses -/

section Beside

variable {edges : List Edge} {x y : Int}

theorem coverage_of_lt_columns (h : ∀ e ∈ edges, e.Crosses y → (x : ℚ) < e.column y) :
    coverage edges x y = 0 := by
  have hleft : crossedLeft edges x y = 0 := List.countP_eq_zero.mpr fun e he hcount => by
    obtain ⟨hcross, hlt⟩ := of_decide_eq_true hcount
    exact lt_asymm hlt (h e he hcross)
  have hthrough : crossedThrough edges x y = 0 := List.countP_eq_zero.mpr fun e he hcount => by
    obtain ⟨hcross, -, heq⟩ := of_decide_eq_true hcount
    exact (h e he hcross).ne' heq
  have hstarted : startedAt edges x y = 0 := List.countP_eq_zero.mpr fun e he hcount => by
    obtain ⟨hcross, -, heq⟩ := of_decide_eq_true hcount
    exact (h e he hcross).ne' heq
  simp only [coverage, hleft, hthrough, hstarted]

theorem coverage_of_columns_lt (h : ∀ e ∈ edges, e.Crosses y → e.column y < (x : ℚ))
    (heven : Even (edges.countP fun e => e.Crosses y)) : coverage edges x y = 0 := by
  have hleft : crossedLeft edges x y = edges.countP fun e => e.Crosses y :=
    List.countP_congr fun e he => by
      rw [decide_eq_true_eq, decide_eq_true_eq]
      exact and_iff_left_of_imp (h e he)
  have hthrough : crossedThrough edges x y = 0 := List.countP_eq_zero.mpr fun e he hcount => by
    obtain ⟨hcross, -, heq⟩ := of_decide_eq_true hcount
    exact (h e he hcross).ne heq
  have hstarted : startedAt edges x y = 0 := List.countP_eq_zero.mpr fun e he hcount => by
    obtain ⟨hcross, -, heq⟩ := of_decide_eq_true hcount
    exact (h e he hcross).ne heq
  simp only [coverage, hleft, hthrough, hstarted]
  rw [Nat.even_iff] at heven
  omega

end Beside

section Box

variable {placement : Placement} {vertices : List Vertex} {box : Box}
  (hbox : ∀ v ∈ vertices.map placement.apply, box.Encloses v)

include hbox

theorem ends_holds_of_mem_spans (hleft : box.left ≤ 2147483647) (hright : -2147483648 ≤ box.right)
    {s : Span} (hs : s ∈ Rasterizer.spans placement vertices) :
    box.Holds s.first s.y ∧ box.Holds s.last s.y := by
  obtain ⟨⟨e, he, hcross, hceil⟩, f, hf, hcross', hfloor⟩ := exists_edges_of_mem_spans hs
  obtain ⟨⟨htop, hbottom⟩, hfirst, hfirst'⟩ := place_bounds hbox he hcross
  obtain ⟨-, hlast, hlast'⟩ := place_bounds hbox hf hcross'
  rw [hceil, hfloor]
  exact ⟨⟨htop, hbottom, Crossing.le_ceil _ hfirst hleft, Crossing.ceil_le _ hfirst' hright⟩,
    htop, hbottom, Crossing.le_floor _ hlast hleft, Crossing.floor_le _ hlast' hright⟩

theorem holds_of_mem_filled {x y : Int} (h : (x, y) ∈ filled placement vertices) :
    box.Holds x y := by
  rw [mem_filled_iff] at h
  have hcovered : coverage (outline placement vertices) x y ≠ 0 := fun hzero => by
    rw [hzero] at h
    exact Nat.not_odd_zero h
  have hcolumns : ∀ e ∈ outline placement vertices, e.Crosses y →
      (box.left : ℚ) ≤ e.column y ∧ e.column y ≤ box.right := fun e he hcross => by
    rw [← place_crossingOn]
    exact (place_bounds hbox he hcross).2
  obtain ⟨e, he, hcross⟩ : ∃ e ∈ outline placement vertices, e.Crosses y := by
    by_contra hnone
    exact hcovered (coverage_eq_zero (fun e he hcross => hnone ⟨e, he, hcross⟩) x)
  obtain ⟨⟨htop, hbottom⟩, -⟩ := place_bounds hbox he hcross
  refine ⟨htop, hbottom, ?_, ?_⟩
  · by_contra hout
    have hlt : (x : ℚ) < box.left := by exact_mod_cast not_le.mp hout
    exact hcovered (coverage_of_lt_columns fun e he hcross =>
      hlt.trans_le (hcolumns e he hcross).1)
  · by_contra hout
    have hlt : (box.right : ℚ) < x := by exact_mod_cast not_le.mp hout
    exact hcovered (coverage_of_columns_lt (fun e he hcross =>
      (hcolumns e he hcross).2.trans_lt hlt) (even_crosses placement vertices y))

end Box

namespace Plane

variable {p : Plane} {x y : Int}

theorem holds_area_iff : p.area.Holds x y ↔ p.Draws x y := by
  simp only [Box.Holds, area, Draws]
  omega

theorem run_of_draws {first last : Int} (hfirst : p.Draws first y) (hlast : p.Draws last y) :
    (p.run y first last).2 = (last - first + 1).toNat := by
  obtain ⟨hleft, -, htop, hbottom⟩ := hfirst
  obtain ⟨-, hright, -, -⟩ := hlast
  simp only [run, max_eq_left hleft, min_eq_left (Int.le_sub_one_of_lt hright)]
  split
  case isTrue hout =>
    dsimp only
    omega
  case isFalse => rfl

end Plane

namespace Rasterizer

variable {z : Rasterizer} {p : Plane} {vertices : List Vertex}

theorem fill_of_clear (z : Rasterizer) (p : Plane) (vertices : List Vertex) (clear : Bool) :
    (z.fill p vertices clear).1 = (z.fill (if clear then p.clear else p) vertices false).1 := by
  rw [fill_fst, fill_fst]
  rfl

theorem toggled_fill_iff_of_draws (hwhole : p.IsWhole) (hwidth : p.width < 2147483648)
    (hdraws : ∀ x y, (x, y) ∈ filled z.placement vertices → p.Draws x y) (clear : Bool)
    (x y : Int) : (if clear then p.clear else p).Toggled (z.fill p vertices clear).1 x y ↔
      (x, y) ∈ filled z.placement vertices := by
  rw [fill_of_clear]
  replace hwhole := hwhole.ite_clear clear
  generalize hbefore : (if clear then p.clear else p) = before at hwhole ⊢
  obtain ⟨hsame, hdraws'⟩ : before.width = p.width ∧ (before.Draws x y ↔ p.Draws x y) := by
    subst hbefore
    cases clear <;> exact ⟨rfl, Iff.rfl⟩
  rw [← hsame] at hwidth
  constructor
  · intro htoggled
    obtain ⟨_, _, haddress, -⟩ := id htoggled
    exact (z.toggled_fill_iff hwhole hwidth vertices
      (Plane.draws_of_address? haddress)).mp htoggled
  · intro hfilled
    exact (z.toggled_fill_iff hwhole hwidth vertices
      (hdraws'.mpr (hdraws x y hfilled))).mpr hfilled

theorem encloses_area_of_fit (hwidth : sourceWidth ≤ p.width) (hheight : sourceHeight ≤ p.height)
    (hvertices : ∀ v ∈ vertices, v.InSource) :
    ∀ v ∈ vertices.map (Placement.fit p.width p.height).apply, p.area.Encloses v := by
  intro v hv
  obtain ⟨u, hu, rfl⟩ := List.mem_map.mp hv
  exact Placement.encloses_apply_fit hwidth hheight (hvertices u hu)

/-- On a display that is not smaller than the source, fills under the fitted placement lose
nothing: both ends of every span are on the plane and its run is as long as the span, and what
is filled is on the plane too, so that just that is toggled if the plane is whole. The placed
source stands on the bottom, with margins to its left and right of which the right one is wider
by at most a column, and at no larger scale does the display hold it. -/
theorem fitted_fills_lose_nothing (p : Plane) (hwidth : 256 ≤ p.width) (hheight : 204 ≤ p.height) :
    let placement := Placement.fit p.width p.height
    (∀ (z : Rasterizer) (vertices : List Vertex) (clear : Bool), z.placement = placement →
      (∀ v ∈ vertices, 0 ≤ v.x ∧ v.x ≤ 255 ∧ 0 ≤ v.y ∧ v.y ≤ 204) →
      let before := if clear then p.clear else p
      let after := (z.fill p vertices clear).1
      after = before.xorSpans (spans placement vertices) ∧
      (∀ s ∈ spans placement vertices, p.Draws s.first s.y ∧ p.Draws s.last s.y ∧
        (p.run s.y s.first s.last).2 = (s.last - s.first + 1).toNat) ∧
      (∀ x y, (x, y) ∈ filled placement vertices → p.Draws x y) ∧
      (p.IsWhole → p.width < 2147483648 →
        ∀ x y, before.Toggled after x y ↔ (x, y) ∈ filled placement vertices)) ∧
    placement.y + 204 * placement.scale = p.height ∧
    (let left := placement.x
      let right := p.width - (placement.x + 256 * placement.scale)
      0 ≤ left ∧ left ≤ right ∧ right ≤ left + 1) ∧
    1 ≤ placement.scale ∧
    ∀ scale, placement.scale < scale → p.width < 256 * scale ∨ p.height < 204 * scale := by
  intro placement
  have hwide : sourceWidth ≤ p.width := Int.ofNat_le.mpr hwidth
  have hhigh : sourceHeight ≤ p.height := Int.ofNat_le.mpr hheight
  have hscale := Placement.le_scale_fit_iff hwide hhigh
  have hx := Placement.x_fit hwide hhigh
  have hy := Placement.y_fit hwide hhigh
  refine ⟨fun z vertices clear hz hvertices => ?fills, ?bottom, ?margins,
    Placement.scale_fit_pos hwide hhigh, fun scale hlt => ?largest⟩
  case fills =>
    intro before after
    have hbox := encloses_area_of_fit hwide hhigh fun v hv =>
      have ⟨hleft, hright, hrows⟩ := hvertices v hv
      ⟨hleft, Int.lt_add_one_of_le hright, hrows⟩
    have hdraws : ∀ x y, (x, y) ∈ filled placement vertices → p.Draws x y := fun x y hfilled =>
      Plane.holds_area_iff.mp (holds_of_mem_filled hbox hfilled)
    refine ⟨?_, fun s hs => ?_, hdraws, fun hwhole hmachine => ?_⟩
    · rw [← hz]
      exact z.fill_fst p vertices clear
    · obtain ⟨hfirst, hlast⟩ := ends_holds_of_mem_spans hbox (by simp [Plane.area])
        (by simp only [Plane.area]; omega) hs
      rw [Plane.holds_area_iff] at hfirst hlast
      exact ⟨hfirst, hlast, Plane.run_of_draws hfirst hlast⟩
    · rw [← hz] at hdraws ⊢
      exact toggled_fill_iff_of_draws hwhole hmachine hdraws clear
  case bottom =>
    simp only [placement, hy]
    omega
  case margins =>
    have hfits := ((hscale placement.scale).mp le_rfl).1
    simp only [sourceWidth] at hfits
    simp only [placement, hx] at hfits ⊢
    omega
  case largest =>
    by_contra hboth
    have hfits := (hscale scale).mpr (by simp only [sourceWidth, sourceHeight]; omega)
    exact absurd hlt (not_lt.mpr hfits)

/-- The whole source, three times as large and with one column more to its right than to its
left, fills the last row of the display up to the last column but four. -/
theorem fitted_fill_of_whole_source :
    let p := Plane.dark 2 771 613 800
    let z := ofPlacement (.fit 771 613)
    let vertices : List Vertex := [⟨0, 0⟩, ⟨0, 255⟩, ⟨204, 255⟩, ⟨204, 0⟩]
    256 ≤ p.width ∧ 204 ≤ p.height ∧ p.IsWhole ∧ z.placement = ⟨3, 1, 1⟩ ∧
      (∀ v ∈ vertices, 0 ≤ v.x ∧ v.x ≤ 255 ∧ 0 ≤ v.y ∧ v.y ≤ 204) ∧ p.Draws 766 612 ∧
      p.Toggled (z.fill p vertices false).1 766 612 ∧
      ¬p.Toggled (z.fill p vertices false).1 767 612 := by
  intro p z vertices
  have hwidth : 256 ≤ p.width := by decide
  have hheight : 204 ≤ p.height := by decide
  have hwhole : p.IsWhole := p.isWhole_iff.mpr (by decide)
  have hvertices : ∀ v ∈ vertices, 0 ≤ v.x ∧ v.x ≤ 255 ∧ 0 ≤ v.y ∧ v.y ≤ 204 := by decide
  obtain ⟨hfills, -⟩ := fitted_fills_lose_nothing p hwidth hheight
  obtain ⟨-, -, hdraws, htoggled⟩ := hfills z vertices false rfl hvertices
  have hin : (766, 612) ∈ filled (.fit p.width p.height) vertices := by
    rw [mem_filled_iff]
    decide +kernel
  have hout : (767, 612) ∉ filled (.fit p.width p.height) vertices := by
    rw [mem_filled_iff]
    decide +kernel
  have htoggles := htoggled hwhole (by decide)
  exact ⟨hwidth, hheight, hwhole, by decide, hvertices, hdraws _ _ hin,
    (htoggles _ _).mpr hin, fun h => hout ((htoggles _ _).mp h)⟩

end Rasterizer

end Bitplane
