import Bitplane.Proofs.Fill.Placed
import Bitplane.Proofs.Fill.Sweep

/-! # The bounds of a fill

A fill toggles no pixel outside the box around the placed vertices, of which the bottom row
is left out. Every row is crossed an even number of times, so that every span that is opened
is closed, and it begins and ends at a crossing, between the ends of an edge.
-/

namespace Bitplane

structure Box where
  top : Int
  bottom : Int
  left : Int
  right : Int
  deriving DecidableEq, Repr

/-- Whether a pixel is in a box, of which the bottom row is left out. -/
def Box.Holds (b : Box) (x y : Int) : Prop := b.top ≤ y ∧ y < b.bottom ∧ b.left ≤ x ∧ x ≤ b.right

/-- Whether a point is in a box, of which all sides belong to it. -/
def Box.Encloses (b : Box) (v : Vertex) : Prop :=
  b.top ≤ v.y ∧ v.y ≤ b.bottom ∧ b.left ≤ v.x ∧ v.x ≤ b.right

def boundingBox? (points : List Vertex) : Option Box :=
  match (points.map (·.y)).min?, (points.map (·.y)).max?, (points.map (·.x)).min?,
    (points.map (·.x)).max? with
  | some top, some bottom, some left, some right => some ⟨top, bottom, left, right⟩
  | _, _, _, _ => none

section Box

variable {points : List Vertex} {box : Box} {v : Vertex}

theorem exists_boundingBox? (hv : v ∈ points) : ∃ box, boundingBox? points = some box := by
  have hy : points.map (·.y) ≠ [] := List.ne_nil_of_mem (List.mem_map_of_mem hv)
  have hx : points.map (·.x) ≠ [] := List.ne_nil_of_mem (List.mem_map_of_mem hv)
  obtain ⟨top, htop⟩ := Option.isSome_iff_exists.mp (List.isSome_min?_of_ne_nil hy)
  obtain ⟨bottom, hbottom⟩ := Option.isSome_iff_exists.mp (List.isSome_max?_of_ne_nil hy)
  obtain ⟨left, hleft⟩ := Option.isSome_iff_exists.mp (List.isSome_min?_of_ne_nil hx)
  obtain ⟨right, hright⟩ := Option.isSome_iff_exists.mp (List.isSome_max?_of_ne_nil hx)
  exact ⟨⟨top, bottom, left, right⟩, by simp only [boundingBox?, htop, hbottom, hleft, hright]⟩

theorem encloses_of_boundingBox? (h : boundingBox? points = some box) (hv : v ∈ points) :
    box.Encloses v := by
  have hy : v.y ∈ points.map (·.y) := List.mem_map_of_mem hv
  have hx : v.x ∈ points.map (·.x) := List.mem_map_of_mem hv
  unfold boundingBox? at h
  split at h
  case h_1 htop hbottom hleft hright =>
    cases h
    exact ⟨(List.min?_eq_some_iff.mp htop).2 _ hy, (List.max?_eq_some_iff.mp hbottom).2 _ hy,
      (List.min?_eq_some_iff.mp hleft).2 _ hx, (List.max?_eq_some_iff.mp hright).2 _ hx⟩
  case h_2 => cases h

end Box

namespace Edge

theorem ends_of_between? {e : Edge} {a b : Vertex} (h : between? a b = some e) :
    e.top = a ∧ e.bottom = b ∨ e.top = b ∧ e.bottom = a := by
  unfold between? at h
  split_ifs at h
  · cases h
    exact .inl ⟨rfl, rfl⟩
  · cases h
    exact .inr ⟨rfl, rfl⟩

end Edge

section Outline

variable {points : List Vertex} {placement : Placement} {vertices : List Vertex}

theorem mem_of_mem_sides {a b : Vertex} (h : (a, b) ∈ sides points) : a ∈ points ∧ b ∈ points := by
  obtain ⟨ha, hb⟩ := List.of_mem_zip h
  refine ⟨ha, ?_⟩
  rcases List.mem_append.mp hb with hb | hb
  · exact List.mem_of_mem_tail hb
  · exact List.mem_of_mem_take hb

theorem ends_of_mem_outline {e : Edge} (h : e ∈ outline placement vertices) :
    e.top ∈ vertices.map placement.apply ∧ e.bottom ∈ vertices.map placement.apply := by
  obtain ⟨⟨a, b⟩, hside, hedge⟩ := List.mem_filterMap.mp h
  obtain ⟨ha, hb⟩ := mem_of_mem_sides hside
  rcases Edge.ends_of_between? hedge with ⟨htop, hbottom⟩ | ⟨htop, hbottom⟩
  · exact ⟨htop ▸ ha, hbottom ▸ hb⟩
  · exact ⟨htop ▸ hb, hbottom ▸ ha⟩

theorem outline_eq_nil (h : ∀ v ∈ vertices.map placement.apply,
    ∀ w ∈ vertices.map placement.apply, v.y = w.y) : outline placement vertices = [] := by
  refine List.eq_nil_iff_forall_not_mem.mpr fun e he => ?_
  obtain ⟨htop, hbottom⟩ := ends_of_mem_outline he
  exact e.top_lt_bottom.ne (h _ htop _ hbottom)

end Outline

/-! ## Spans and pixels -/

section Spans

variable {placement : Placement} {vertices : List Vertex} {y : Int}

theorem place_bounds {box : Box} (hbox : ∀ v ∈ vertices.map placement.apply, box.Encloses v)
    {e : Edge} (he : e ∈ outline placement vertices) (hcross : e.Crosses y) :
    (box.top ≤ y ∧ y < box.bottom) ∧
      (box.left ≤ (crossingOn y e).place ∧ (crossingOn y e).place ≤ box.right) := by
  obtain ⟨htop, hbottom⟩ := ends_of_mem_outline he
  obtain ⟨hy, -, hleft, hright⟩ := hbox _ htop
  obtain ⟨-, hy', hleft', hright'⟩ := hbox _ hbottom
  refine ⟨⟨hy.trans hcross.1, hcross.2.trans_le hy'⟩, ?_, ?_⟩
  · exact (Crossing.le_place_iff ..).mpr (Edge.le_numerator hcross.1 hcross.2.le hleft hleft')
  · exact (Crossing.place_le_iff ..).mpr (Edge.numerator_le hcross.1 hcross.2.le hright hright')

/-- A span begins where one edge crosses its row and ends where another does. -/
theorem exists_edges_of_mem_spans {s : Span} (hs : s ∈ Rasterizer.spans placement vertices) :
    (∃ e ∈ outline placement vertices, e.Crosses s.y ∧ s.first = (crossingOn s.y e).ceil) ∧
      ∃ e ∈ outline placement vertices, e.Crosses s.y ∧ s.last = (crossingOn s.y e).floor := by
  rw [Rasterizer.spans_eq_flatMap] at hs
  obtain ⟨⟨y, w⟩, hrow, hs⟩ := List.mem_flatMap.mp hs
  obtain rfl : s.y = y := scanRow_row hs
  have hcrossings := (Rasterizer.crossings_perm_of_mem_rows hrow).subset
  obtain ⟨⟨c, hc, hceil⟩, d, hd, hfloor⟩ := ends_of_mem_scanRow hs
  obtain ⟨e, he, rfl⟩ := List.mem_map.mp (hcrossings hc)
  obtain ⟨f, hf, rfl⟩ := List.mem_map.mp (hcrossings hd)
  obtain ⟨he, hcross⟩ := List.mem_filter.mp he
  obtain ⟨hf, hcross'⟩ := List.mem_filter.mp hf
  exact ⟨⟨e, he, of_decide_eq_true hcross, hceil⟩, f, hf, of_decide_eq_true hcross', hfloor⟩

/-- Every span of a fill lies in the box. -/
theorem holds_of_covers (hrange : ∀ v ∈ vertices.map placement.apply,
    -2147483648 ≤ v.x ∧ v.x ≤ 2147483647) {s : Span} (hs : s ∈ Rasterizer.spans placement vertices)
    {x : Int} (hcovers : s.Covers x y) :
    ∃ box ∈ boundingBox? (vertices.map placement.apply), box.Holds x y := by
  obtain ⟨rfl, hfirst, hlast⟩ := hcovers
  obtain ⟨⟨e, he, hcross, hceil⟩, f, hf, hcross', hfloor⟩ := exists_edges_of_mem_spans hs
  obtain ⟨htop, -⟩ := ends_of_mem_outline he
  obtain ⟨box, hbox⟩ := exists_boundingBox? htop
  have hencloses : ∀ v ∈ vertices.map placement.apply, box.Encloses v :=
    fun _ => encloses_of_boundingBox? hbox
  obtain ⟨hrows, hleft, -⟩ := place_bounds hencloses he hcross
  obtain ⟨-, -, hright⟩ := place_bounds hencloses hf hcross'
  -- a vertex lies between the sides of the box, so clamping moves no end of a span across them
  obtain ⟨-, -, hleft', hright'⟩ := hencloses _ htop
  obtain ⟨hmin, hmax⟩ := hrange _ htop
  have hle_ceil := Crossing.le_ceil _ hleft (hleft'.trans hmax)
  have hfloor_le := Crossing.floor_le _ hright (hmin.trans hright')
  exact ⟨box, hbox, hrows.1, hrows.2, by omega, by omega⟩

theorem unclosed_scan {w : Rasterizer} (hrow : (y, w) ∈ Rasterizer.rows placement vertices) :
    (w.scan y).unclosed = none := by
  refine unclosed_scanRow ?_
  rw [(Rasterizer.crossings_perm_of_mem_rows hrow).length_eq, List.length_map,
    ← List.countP_eq_length_filter]
  exact even_crosses placement vertices y

theorem spans_of_level (hlevel : ∀ v ∈ vertices.map placement.apply,
    ∀ w ∈ vertices.map placement.apply, v.y = w.y) : Rasterizer.spans placement vertices = [] := by
  unfold Rasterizer.spans
  rw [outline_eq_nil hlevel]
  rfl

end Spans

namespace Plane

variable {p : Plane} {spans : List Span} {x y : Int}

theorem draws_of_address? {place : Nat} (h : p.address? x y = some place) : p.Draws x y := by
  unfold address? at h
  split at h
  case isTrue hdraws => exact hdraws
  case isFalse => cases h

section Whole

variable (hwhole : p.IsWhole)
include hwhole

theorem exists_covers_of_toggled (h : p.Toggled (p.xorSpans spans) x y) :
    ∃ s ∈ spans, s.Covers x y := by
  obtain ⟨place, byte, haddress, hbyte, hnew⟩ := h
  obtain ⟨column, row, rfl, rfl, hcolumn, hrow⟩ := (draws_of_address? haddress).exists_natCast
  have hplace := hwhole.address?_natCast hcolumn hrow
  obtain rfl := Option.some.inj (haddress.symm.trans hplace)
  by_contra hnone
  have hcount : coverCount spans column row = 0 :=
    List.countP_eq_zero.mpr fun s hs hcovers => hnone ⟨s, hs, of_decide_eq_true hcovers⟩
  rw [hwhole.getElem?_xorSpans_place spans hcolumn hrow, hcount, hbyte, Option.map_some,
    toggled_zero, Option.some.injEq] at hnew
  exact p.xor_pen_ne byte hnew.symm

theorem exists_toggled_of_ne {i : Nat} (h : (p.xorSpans spans).data[i]? ≠ p.data[i]?) :
    ∃ x y, p.address? x y = some i ∧ p.Toggled (p.xorSpans spans) x y := by
  rcases p.place_or_padding i with ⟨column, row, hcolumn, hrow, rfl⟩ | hpadding
  · have haddress := hwhole.address?_natCast hcolumn hrow
    obtain ⟨byte, hbyte⟩ : ∃ byte, p.data[row * p.stride + column]? = some byte :=
      ⟨_, Array.getElem?_eq_getElem (hwhole.place_lt_size hcolumn hrow)⟩
    have hnew := hwhole.getElem?_xorSpans_place spans hcolumn hrow
    rw [hbyte, Option.map_some, toggled] at hnew
    split at hnew
    case isTrue => exact ⟨column, row, haddress, _, byte, haddress, hbyte, hnew⟩
    case isFalse => exact absurd (hnew.trans hbyte.symm) h
  · exact absurd (hwhole.getElem?_xorSpans_padding spans hpadding) h

end Whole

end Plane

namespace Rasterizer

/-- A fill toggles no pixel outside the box around the placed vertices, and changes nothing but
the bytes of pixels that it toggles, whatever a whole plane and the buffers hold. It draws what
the scans of the rows give. Every row is crossed by an even number of edges, and every span that is
opened there is closed. Points of one row fill nothing. -/
theorem fill_stays_in_boundingBox (z : Rasterizer) (p : Plane) (vertices : List Vertex)
    (clear : Bool)
    (hrange : ∀ v ∈ vertices.map z.placement.apply, -2147483648 ≤ v.x ∧ v.x ≤ 2147483647) :
    let points := vertices.map z.placement.apply
    let before := if clear then p.clear else p
    let after := (z.fill p vertices clear).1
    (p.IsWhole →
      ∀ x y, before.Toggled after x y → ∃ box ∈ boundingBox? points, box.Holds x y) ∧
    (p.IsWhole → ∀ i : Nat, after.data[i]? ≠ before.data[i]? →
      ∃ x y, before.address? x y = some i ∧ before.Toggled after x y) ∧
    after = before.xorSpans ((rows z.placement vertices).flatMap fun (y, w) => (w.scan y).spans) ∧
    (∀ y, Even ((outline z.placement vertices).countP fun e => e.Crosses y)) ∧
    (∀ y w, (y, w) ∈ rows z.placement vertices → (w.scan y).unclosed = none) ∧
    ((∀ v ∈ points, ∀ w ∈ points, v.y = w.y) → after = before) := by
  intro points before after
  have hafter : after = before.xorSpans (spans z.placement vertices) := z.fill_fst p vertices clear
  refine ⟨fun hwhole x y htoggled => ?inside, fun hwhole i hne => ?bytes, ?rows,
    even_crosses z.placement vertices, fun y w hrow => unclosed_scan hrow, fun hlevel => ?level⟩
  case inside =>
    rw [hafter] at htoggled
    obtain ⟨s, hs, hcovers⟩ := Plane.exists_covers_of_toggled (hwhole.ite_clear clear) htoggled
    exact holds_of_covers hrange hs hcovers
  case bytes =>
    rw [hafter] at hne ⊢
    exact Plane.exists_toggled_of_ne (hwhole.ite_clear clear) hne
  case rows =>
    rw [hafter, spans_eq_flatMap]
  case level =>
    rw [hafter, spans_of_level hlevel]
    rfl

/-- A triangle twice as large, which begins left of the plane. It fills the row below its top
and nothing on its bottom row. -/
theorem fill_stays_in_box_of_clipped_triangle :
    let vertices : List Vertex := [⟨0, 0⟩, ⟨0, 4⟩, ⟨4, 0⟩]
    let z := ofPlacement ⟨2, -3, 5⟩
    let p := Plane.dark 2 6 16 9
    let box : Box := ⟨5, 13, -3, 5⟩
    (∀ v ∈ vertices.map z.placement.apply, -2147483648 ≤ v.x ∧ v.x ≤ 2147483647) ∧
      boundingBox? (vertices.map z.placement.apply) = some box ∧ p.IsWhole ∧
      p.Toggled (z.fill p vertices false).1 1 6 ∧ box.Holds 1 6 ∧
      ¬p.Toggled (z.fill p vertices false).1 0 13 := by
  intro vertices z p box
  have hrange : ∀ v ∈ vertices.map z.placement.apply,
      -2147483648 ≤ v.x ∧ v.x ≤ 2147483647 := by decide
  have hbox : boundingBox? (vertices.map z.placement.apply) = some box := by decide
  have hwhole : p.IsWhole := by decide
  obtain ⟨hinside, -⟩ := z.fill_stays_in_boundingBox p vertices false hrange
  have htoggled : p.Toggled (z.fill p vertices false).1 1 6 := by
    rw [z.toggled_fill_iff hwhole (by decide) vertices (by decide), mem_filled_iff]
    decide +kernel
  have hholds {x y : Int} (h : p.Toggled (z.fill p vertices false).1 x y) : box.Holds x y := by
    obtain ⟨_, hsome, hholds⟩ := hinside hwhole x y h
    obtain rfl := Option.some.inj (hbox.symm.trans hsome)
    exact hholds
  exact ⟨hrange, hbox, hwhole, htoggled, hholds htoggled,
    fun h => absurd (hholds h).2.1 (by decide)⟩

end Rasterizer

end Bitplane
