import Bitplane.Proofs.Fill.Sides
import Bitplane.Proofs.Tween.Record

/-! # The ends of a tween

A shape that is spread over at least as many places as it has vertices keeps each of them,
in order, and repeats them in place. At its two ends a tween is its sources spread in this
way, and fills what they fill.
-/

namespace Bitplane

theorem repeated_append (stays others : List (Vertex × Nat)) :
    repeated (stays ++ others) = repeated stays ++ repeated others := List.flatMap_append

theorem repeated_concat_succ (stays : List (Vertex × Nat)) (v : Vertex) (n : Nat) :
    repeated (stays ++ [(v, n + 1)]) = repeated (stays ++ [(v, n)]) ++ [v] := by
  rw [repeated_append, repeated_append, List.append_assoc]
  simp [repeated, List.replicate_succ']

namespace Tween

/-! ## Spreading -/

section Places

variable {size points : Nat}

theorem place_lt {i : Nat} (hsize : 0 < size) (hi : i < points) : i * size / points < size :=
  Nat.div_lt_of_lt_mul (Nat.mul_lt_mul_of_pos_right hi hsize)

variable (hsize : 0 < size) (hle : size ≤ points)
include hsize hle

theorem place_succ (i : Nat) :
    (i + 1) * size / points = i * size / points ∨
      (i + 1) * size / points = i * size / points + 1 := by
  have hstep : (i * size + points) / points = i * size / points + 1 :=
    Nat.add_div_right _ (hsize.trans_le hle)
  have hlow : i * size / points ≤ (i + 1) * size / points :=
    Nat.div_le_div_right (Nat.mul_le_mul_right size i.le_succ)
  have hhigh : (i + 1) * size / points ≤ (i * size + points) / points := by
    rw [Nat.succ_mul]
    exact Nat.div_le_div_right (Nat.add_le_add_left hle _)
  omega

theorem place_last : (points - 1) * size / points = size - 1 := by
  have hplaces : (points - 1) * size = size * points - size := by
    rw [Nat.sub_one_mul, Nat.mul_comm]
  have hbelow : (size - 1) * points = size * points - points := Nat.sub_one_mul ..
  have hmul : points ≤ size * points := Nat.le_mul_of_pos_left points hsize
  refine Nat.div_eq_of_lt_le ?_ ?_
  · omega
  · rw [Nat.sub_one_add_one hsize.ne']
    omega

end Places

variable {p : Polygon} {points : Nat} (hsize : 0 < p.size) (hle : p.size ≤ points)
include hsize

theorem length_spread : (spread points p).length = points := by
  have hsome : ∀ i ∈ List.range points, (p.vertices[i * p.size / points]?).isSome := by
    intro i hi
    have hlt : i * p.size / points < p.vertices.length := place_lt hsize (List.mem_range.mp hi)
    rw [List.getElem?_eq_getElem hlt]
    rfl
  rw [spread, List.filterMap_length_eq_length.mpr hsome, List.length_range]

include hle

/-- The first places hold the vertices in front of the last one reached, each repeated in
place, and then that one, which the next place may repeat again. -/
theorem spread_prefix {n : Nat} (hn : n < points) :
    ∃ stays v k, p.vertices[n * p.size / points]? = some v ∧
      (List.range (n + 1)).filterMap (fun i => p.vertices[i * p.size / points]?) =
        repeated (stays ++ [(v, k)]) ∧
      stays.map Prod.fst = p.vertices.take (n * p.size / points) := by
  induction n with
  | zero =>
    have hfirst : p.vertices[0 * p.size / points]? = some p.vertices[0] := by
      rw [Nat.zero_mul, Nat.zero_div]
      exact List.getElem?_eq_getElem hsize
    refine ⟨[], _, 0, hfirst, ?_, ?_⟩
    · rw [List.range_one, List.filterMap_cons, hfirst]
      rfl
    · rw [Nat.zero_mul, Nat.zero_div]
      rfl
  | succ n ih =>
    obtain ⟨stays, v, k, hv, hprefix, hstays⟩ := ih (by omega)
    obtain ⟨w, hw⟩ : ∃ w, p.vertices[(n + 1) * p.size / points]? = some w :=
      ⟨_, List.getElem?_eq_getElem (place_lt hsize hn)⟩
    have hplaces : (List.range (n + 1 + 1)).filterMap
        (fun i => p.vertices[i * p.size / points]?) = repeated (stays ++ [(v, k)]) ++ [w] := by
      rw [List.range_succ, List.filterMap_append, hprefix, List.filterMap_cons, hw]
      rfl
    rw [hplaces]
    rcases place_succ hsize hle n with hstay | hmove
    · rw [hstay] at hw ⊢
      obtain rfl : v = w := Option.some.inj (hv.symm.trans hw)
      exact ⟨stays, v, k + 1, hw, (repeated_concat_succ ..).symm, hstays⟩
    · refine ⟨stays ++ [(v, k)], w, 0, hw, (repeated_append _ [(w, 0)]).symm, ?_⟩
      obtain ⟨hlt, rfl⟩ := List.getElem?_eq_some_iff.mp hv
      rw [List.map_append, hstays, hmove, List.take_succ_eq_append_getElem hlt]
      rfl

/-- A shape spread over at least its own size keeps every vertex, in order, and repeats some
in place. -/
theorem spread_eq_repeated :
    ∃ stays, spread points p = repeated stays ∧ stays.map Prod.fst = p.vertices := by
  have hlast : points - 1 < points := by omega
  obtain ⟨stays, v, k, hv, hspread, hstays⟩ := spread_prefix hsize hle hlast
  rw [place_last hsize hle] at hv hstays
  rw [Nat.sub_one_add_one (by omega)] at hspread
  obtain ⟨hlt, rfl⟩ := List.getElem?_eq_some_iff.mp hv
  refine ⟨_, hspread, ?_⟩
  rw [List.map_append, hstays]
  have hwhole : p.size - 1 + 1 = p.vertices.length := Nat.sub_one_add_one hsize.ne'
  calc p.vertices.take (p.size - 1) ++ [p.vertices[p.size - 1]]
      = p.vertices.take (p.size - 1 + 1) := List.take_append_getElem hlt
    _ = p.vertices := by rw [hwhole, List.take_length]

omit hsize hle

/-! ## Both ends -/

section Ends

variable {tMax : UInt8} (ht : tMax ≠ 0)
include ht

theorem blend_start (a b : Int) : blend 0 tMax a b = a := by
  rw [blend, UInt8.toNat_zero, Int.natCast_zero, Int.zero_mul, Int.add_zero,
    Int.mul_ediv_cancel _ (toNat_ne_zero ht)]

theorem blend_stop (a b : Int) : blend tMax tMax a b = b := by
  rw [blend, Int.mul_sub, Int.mul_comm a, add_sub_cancel, Int.mul_ediv_cancel_left _
    (toNat_ne_zero ht)]

variable {a b : Polygon} (ha : 0 < a.size) (hb : 0 < b.size)
include ha hb

theorem between_start : between 0 tMax a b = ⟨spread (max a.size b.size) a⟩ := by
  have hvertex : blendVertex 0 tMax = fun v _ => v := by
    funext v w
    rw [blendVertex, blend_start ht, blend_start ht]
  have hlength : (spread (max a.size b.size) a).length ≤ (spread (max a.size b.size) b).length := by
    rw [length_spread ha, length_spread hb]
  rw [between, hvertex, ← List.map_uncurry_zip_eq_zipWith]
  exact congrArg Polygon.mk (List.map_fst_zip hlength)

theorem between_stop : between tMax tMax a b = ⟨spread (max a.size b.size) b⟩ := by
  have hvertex : blendVertex tMax tMax = fun _ w => w := by
    funext v w
    rw [blendVertex, blend_stop ht, blend_stop ht]
  have hlength : (spread (max a.size b.size) b).length ≤ (spread (max a.size b.size) a).length := by
    rw [length_spread ha, length_spread hb]
  rw [between, hvertex, ← List.map_uncurry_zip_eq_zipWith]
  exact congrArg Polygon.mk (List.map_snd_zip hlength)

end Ends

theorem fill_spread (hsize : 0 < p.size) (hle : p.size ≤ points) (z : Rasterizer) (plane : Plane)
    (clear : Bool) :
    (z.fill plane (spread points p) clear).1 = (z.fill plane p.vertices clear).1 := by
  obtain ⟨stays, hspread, hstays⟩ := spread_eq_repeated hsize hle
  rw [Rasterizer.fill_fst, Rasterizer.fill_fst, hspread, ← hstays]
  exact plane.fill_repeated z.placement stays clear

/-- Between two records that hold shapes with vertices, a tween makes a polygon at its first
and at its last step. These are the two shapes spread over the size of the larger one: no
vertex is lost or moved, and some are repeated in place. So each fills what the shape at its
end fills, whatever the placement, the plane and the buffers. -/
theorem ends_fill_their_sources (revision : Revision) (data : Bytes) {source target : Nat}
    {a b : Polygon} (ha : resolve revision data source = .ok a)
    (hb : resolve revision data target = .ok b) (hasize : 0 < a.size) (hbsize : 0 < b.size)
    {tMax : UInt8} (ht : tMax ≠ 0) :
    let points := max a.size b.size
    polygon revision data ⟨source, target, 0, tMax⟩ = .ok ⟨spread points a⟩ ∧
    polygon revision data ⟨source, target, tMax, tMax⟩ = .ok ⟨spread points b⟩ ∧
    (spread points a).length = points ∧ (spread points b).length = points ∧
    (∃ stays, spread points a = repeated stays ∧ stays.map Prod.fst = a.vertices) ∧
    (∃ stays, spread points b = repeated stays ∧ stays.map Prod.fst = b.vertices) ∧
    ∀ (z : Rasterizer) (p : Plane) (clear : Bool),
      (z.fill p (spread points a) clear).1 = (z.fill p a.vertices clear).1 ∧
      (z.fill p (spread points b) clear).1 = (z.fill p b.vertices clear).1 := by
  intro points
  have hale : a.size ≤ points := Nat.le_max_left ..
  have hble : b.size ≤ points := Nat.le_max_right ..
  have hempty : a.size = 0 ↔ b.size = 0 := by omega
  refine ⟨?first, ?last, length_spread hasize, length_spread hbsize,
    spread_eq_repeated hasize hale, spread_eq_repeated hbsize hble, fun z p clear =>
      ⟨fill_spread hasize hale z p clear, fill_spread hbsize hble z p clear⟩⟩
  case first =>
    rw [polygon_of_resolve ht ha hb hempty]
    exact congrArg Except.ok (between_start ht hasize hbsize)
  case last =>
    rw [polygon_of_resolve ht ha hb hempty]
    exact congrArg Except.ok (between_stop ht hasize hbsize)

/-- Of a square and a triangle the square stays as it is and the triangle repeats its first
vertex. -/
theorem ends_fill_square_and_triangle :
    let data : Bytes := #[0xD0, 4, 0, 0, 0, 5, 5, 5, 5, 0, 0xD0, 3, 1, 1, 6, 1, 1, 6]
    let square : Polygon := ⟨[⟨0, 0⟩, ⟨0, 5⟩, ⟨5, 5⟩, ⟨5, 0⟩]⟩
    let triangle : Polygon := ⟨[⟨1, 1⟩, ⟨6, 1⟩, ⟨1, 6⟩]⟩
    let last : List Vertex := [⟨1, 1⟩, ⟨1, 1⟩, ⟨6, 1⟩, ⟨1, 6⟩]
    let z := Rasterizer.ofPlacement ⟨2, -1, 3⟩
    let p := Plane.dark 1 8 8 9
    polygon .fourPlane data ⟨0, 10, 0, 7⟩ = .ok square ∧
      polygon .fourPlane data ⟨0, 10, 7, 7⟩ = .ok ⟨last⟩ ∧
      (z.fill p last true).1 = (z.fill p triangle.vertices true).1 := by
  intro data square triangle last z p
  have ha : resolve .fourPlane data 0 = .ok square := by cbv
  have hb : resolve .fourPlane data 10 = .ok triangle := by cbv
  have hsquare : spread 4 square = square.vertices := by decide
  have htriangle : spread 4 triangle = last := by decide
  obtain ⟨hstart, hstop, -, -, -, -, hfills⟩ := ends_fill_their_sources .fourPlane data ha hb
    (by decide) (by decide) (by decide : (7 : UInt8) ≠ 0)
  have hfill := (hfills z p true).2
  change polygon .fourPlane data _ = .ok ⟨spread 4 square⟩ at hstart
  change polygon .fourPlane data _ = .ok ⟨spread 4 triangle⟩ at hstop
  change (z.fill p (spread 4 triangle) true).1 = _ at hfill
  rw [hsquare] at hstart
  rw [htriangle] at hstop hfill
  exact ⟨hstart, hstop, hfill⟩

end Tween

end Bitplane
