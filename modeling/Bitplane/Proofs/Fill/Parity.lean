import Bitplane.Proofs.Fill.Buffers
import Bitplane.Proofs.Fill.Rows

/-! # Parity filling

Filling a polygon toggles exactly the drawable pixels whose coverage is odd. The
coverage is counted from the exact crossings of a row, so the table, the sweep,
the sort and the rounding of spans leave no trace in the result.
-/

namespace Bitplane

section Counts

variable {edges : List Edge} {y : Int} {cs : List Crossing}

theorem countP_eq_of_perm (h : cs.Perm ((edges.filter fun e => e.Crosses y).map (crossingOn y)))
    (p : Crossing → Prop) (q : Edge → Prop) [DecidablePred p] [DecidablePred q]
    (hpq : ∀ e, e.Crosses y → (p (crossingOn y e) ↔ q e)) :
    cs.countP (fun c => p c) = edges.countP fun e => e.Crosses y ∧ q e := by
  rw [h.countP_eq, List.countP_map, List.countP_filter]
  refine List.countP_congr fun e _ => ?_
  simp only [Function.comp_apply, Bool.and_eq_true, decide_eq_true_eq]
  constructor
  · rintro ⟨hp, he⟩
    exact ⟨he, (hpq e he).mp hp⟩
  · rintro ⟨he, hq⟩
    exact ⟨(hpq e he).mpr hq, he⟩

theorem coverCount_row (hperm : cs.Perm ((edges.filter fun e => e.Crosses y).map (crossingOn y)))
    (horder : cs.Pairwise (ScanOrder y)) (heven : Even (edges.countP fun e => e.Crosses y))
    {x : Int} (h₀ : 0 ≤ x) (h₁ : x < 2147483647) :
    coverCount (scanRow y none cs).spans x y = coverage edges x y := by
  have hlen : Even cs.length := by
    have := countP_eq_of_perm hperm (fun _ => True) (fun _ => True) fun _ _ => Iff.rfl
    simp only [and_true, decide_true, List.countP_true] at this
    rwa [this]
  have hleft : cs.countP (fun c => c.place < (x : ℚ)) = crossedLeft edges x y :=
    countP_eq_of_perm hperm _ _ fun e _ => by rw [place_crossingOn]
  have hthrough : cs.countP (fun c => ¬c.StartsOn y ∧ c.place = (x : ℚ)) =
      crossedThrough edges x y :=
    countP_eq_of_perm hperm _ _ fun e he => by
      rw [place_crossingOn]
      exact and_congr_left fun _ => ⟨lt_of_le_of_ne he.1, ne_of_lt⟩
  have hstart : cs.countP (fun c => c.StartsOn y ∧ c.place = (x : ℚ)) = startedAt edges x y :=
    countP_eq_of_perm hperm _ _ fun e _ => by rw [place_crossingOn]; rfl
  exact coverCount_scanRow horder hlen h₀ h₁ hleft (by rw [hthrough, hstart])

theorem coverage_eq_zero (h : ∀ e ∈ edges, ¬e.Crosses y) (x : Int) : coverage edges x y = 0 := by
  have hcount (q : Edge → Prop) [DecidablePred q] :
      edges.countP (fun e => e.Crosses y ∧ q e) = 0 :=
    List.countP_eq_zero.mpr fun e he => by simp [h e he]
  simp only [coverage, crossedLeft, crossedThrough, startedAt, hcount]

end Counts

namespace Rasterizer

theorem countP_rowSpans_of_ne (z : Rasterizer) {row y : Int} (h : row ≠ y) (x : Int) :
    (z.rowSpans row).countP (fun s => s.Covers x y) = 0 := by
  refine List.countP_eq_zero.mpr fun s hs => ?_
  rw [decide_eq_true_eq]
  rintro ⟨hy, -⟩
  exact h ((scanRow_row hs).symm.trans hy)

theorem Ready.coverCount_spansFrom {edges : List Edge} {top bottom row : Int} {z : Rasterizer}
    {count : Nat} (h : Ready edges top bottom row z) (hrows : InRows edges top bottom)
    (htop : top ≤ row) (hcount : row + count = bottom + 1)
    (heven : ∀ y, Even (edges.countP fun e => e.Crosses y)) {x : Int} (y : Int) (h₀ : 0 ≤ x)
    (h₁ : x < 2147483647) :
    coverCount (spansFrom top count row z) x y = if row ≤ y then coverage edges x y else 0 := by
  induction count generalizing row z with
  | zero =>
    split
    case isTrue hy =>
      refine (coverage_eq_zero (fun e he hc => ?_) x).symm
      have := hrows.le_bottom e he
      simp only [Edge.Crosses] at hc
      omega
    case isFalse => rfl
  | succ count ih =>
    have hbottom : row ≤ bottom := by omega
    have ih := ih (h.advance htop hbottom) (by omega) (by omega)
    simp only [spansFrom, coverCount, List.countP_append] at ih ⊢
    rw [ih]
    rcases lt_trichotomy row y with hlt | rfl | hgt
    · rw [countP_rowSpans_of_ne _ hlt.ne, if_pos (by omega), if_pos hlt.le, Nat.zero_add]
    · have hrow := coverCount_row (h.crossings_perm htop hbottom) (h.scanOrder htop hbottom)
        (heven row) h₀ h₁
      rw [if_neg (by omega), if_pos le_rfl, Nat.add_zero]
      exact hrow
    · rw [countP_rowSpans_of_ne _ hgt.ne', if_neg (by omega), if_neg (by omega)]

/-- The spans of a polygon cover a column that a plane can have as often as its coverage
says. -/
theorem coverCount_spans (placement : Placement) (vertices : List Vertex) {x : Int} (y : Int)
    (h₀ : 0 ≤ x) (h₁ : x < 2147483647) :
    coverCount (spans placement vertices) x y = coverage (outline placement vertices) x y := by
  unfold spans
  dsimp only
  cases hrange : rowRange? (outline placement vertices) with
  | none =>
    rw [eq_nil_of_rowRange? hrange]
    exact (coverage_eq_zero (by simp) x).symm
  | some rows =>
    obtain ⟨top, bottom⟩ := rows
    have hrows := inRows_of_rowRange? hrange
    have hready := (linked_build (ofPlacement placement) _ top bottom).ready hrows
    have hlt := hrows.top_lt_bottom
    dsimp only
    rw [hready.coverCount_spansFrom hrows le_rfl (by omega)
      (even_crosses placement vertices) y h₀ h₁]
    split
    case isTrue => rfl
    case isFalse hy =>
      refine (coverage_eq_zero (fun e he hc => hy ?_) x).symm
      have := hrows.top_le e he
      simp only [Edge.Crosses] at hc
      omega

end Rasterizer

namespace Rasterizer

variable (z : Rasterizer) (p : Plane)

variable {p} in
theorem getElem?_fill_place (hwhole : p.IsWhole) (hwidth : p.width < 2147483648)
    (vertices : List Vertex) {x y : Nat} (hx : x < p.width) (hy : y < p.height) :
    (z.fill p vertices false).1.data[y * p.stride + x]? =
      p.data[y * p.stride + x]?.map
        (Plane.toggled p.pen (coverage (outline z.placement vertices) x y)) := by
  rw [fill_fst, Plane.fill, if_neg Bool.false_ne_true, hwhole.getElem?_xorSpans_place _ hx hy,
    coverCount_spans z.placement vertices y (by omega) (by omega)]

/-- Filling without clearing toggles a drawable pixel by the pen exactly if its coverage
by the placed outline is odd, whatever the buffers hold. No other byte changes, and neither
does the geometry. Pixels have their bytes on a whole plane, that is on one whose size in bytes
is a word. -/
theorem fill_toggles_odd_coverage (hwidth : p.width < 2147483648) (vertices : List Vertex) :
    let q := (z.fill p vertices false).1
    (p.IsWhole → ∀ x y : Nat, x < p.width → y < p.height → ∃ byte,
      p.data[y * p.stride + x]? = some byte ∧
      q.data[y * p.stride + x]? = some
        (if Odd (coverage (outline z.placement vertices) x y) then byte ^^^ p.pen else byte)) ∧
    p.pen ≠ 0 ∧
    (p.IsWhole → ∀ i, (∀ x y, x < p.width → y < p.height → i ≠ y * p.stride + x) →
      q.data[i]? = p.data[i]?) ∧
    q.index = p.index ∧ q.width = p.width ∧ q.height = p.height ∧ q.stride = p.stride ∧
      q.offset = p.offset := by
  intro q
  have hq : q = p.fill z.placement vertices false := z.fill_fst p vertices false
  refine ⟨fun hwhole x y hx hy => ?_, p.pen_ne_zero, fun hwhole i hi => ?_, ?_⟩
  · have hbyte := Array.getElem?_eq_getElem (hwhole.place_lt_size hx hy)
    refine ⟨_, hbyte, ?_⟩
    rw [z.getElem?_fill_place hwhole hwidth vertices hx hy, hbyte]
    rfl
  · rw [hq]
    exact hwhole.getElem?_xorSpans_padding _ hi
  · rw [hq]
    exact ⟨rfl, rfl, rfl, rfl, rfl⟩

/-- Where an edge from above meets a tip, the tip makes no crossing and the edge does. The
buffers still hold the edges of another polygon. -/
theorem fill_toggles_edge_through_tip :
    let p := Plane.dark 2 8 8 10
    let z := (ofPlacement .identity).build (outline .identity [⟨1, 1⟩, ⟨1, 6⟩, ⟨6, 1⟩]) 1 6
    let vertices : List Vertex := [⟨0, 0⟩, ⟨4, 4⟩, ⟨4, 0⟩, ⟨2, 2⟩, ⟨4, 1⟩]
    z.edges.size = 2 ∧ p.width < 2147483648 ∧ p.IsWhole ∧ p.data[22]? = some 0 ∧
      (z.fill p vertices false).1.data[22]? = some (0 ^^^ p.pen) := by
  intro p z vertices
  have hwidth : p.width < 2147483648 := by decide
  have hwhole : p.IsWhole := by decide
  obtain ⟨byte, hbyte, hfill⟩ := (z.fill_toggles_odd_coverage p hwidth vertices).1 hwhole 2 2
    (by decide) (by decide)
  have hodd : Odd (coverage (outline z.placement vertices) (2 : Nat) (2 : Nat)) := by
    decide +kernel
  rw [if_pos hodd] at hfill
  have hzero : p.data[22]? = some 0 := by decide +kernel
  obtain rfl : (0 : UInt8) = byte := Option.some.inj (hzero.symm.trans hbyte)
  exact ⟨by decide +kernel, hwidth, hwhole, hzero, hfill⟩

end Rasterizer

end Bitplane
