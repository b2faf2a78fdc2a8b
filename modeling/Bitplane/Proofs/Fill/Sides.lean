import Bitplane.Proofs.Fill.Ties
import Mathlib

/-! # The sides of a polygon

What a polygon fills hangs on its sides alone, the horizontal ones left out: not on their
order and not on their direction. It may be gone round from any vertex, either way, and a
vertex may be repeated in place.
-/

namespace Bitplane

/-- Sides without direction, each as often as it occurs, the horizontal ones left out. -/
def slanted (sides : List (Vertex × Vertex)) : Multiset (Sym2 Vertex) :=
  ((sides.filter fun (a, b) => a.y ≠ b.y).map fun (a, b) => s(a, b) : List (Sym2 Vertex))

def slantedSides (points : List Vertex) : Multiset (Sym2 Vertex) := slanted (sides points)

section Slanted

variable {a b : Vertex} {l l' : List (Vertex × Vertex)}

theorem slanted_cons_of_slope (h : a.y ≠ b.y) : slanted ((a, b) :: l) = s(a, b) ::ₘ slanted l := by
  simp [slanted, h]

theorem slanted_cons_of_level (h : a.y = b.y) : slanted ((a, b) :: l) = slanted l := by
  simp [slanted, h]

theorem slanted_cons_congr (h : slanted l = slanted l') :
    slanted ((a, b) :: l) = slanted ((a, b) :: l') := by
  by_cases hy : a.y = b.y
  · rw [slanted_cons_of_level hy, slanted_cons_of_level hy, h]
  · rw [slanted_cons_of_slope hy, slanted_cons_of_slope hy, h]

theorem slanted_eq_of_perm (h : l.Perm l') : slanted l = slanted l' :=
  Multiset.coe_eq_coe.mpr ((h.filter _).map _)

theorem slanted_map_swap : slanted (l.map Prod.swap) = slanted l := by
  induction l with
  | nil => rfl
  | cons side rest ih =>
    obtain ⟨a, b⟩ := side
    rw [List.map_cons, Prod.swap_prod_mk]
    by_cases hy : a.y = b.y
    · rw [slanted_cons_of_level hy, slanted_cons_of_level hy.symm, ih]
    · rw [slanted_cons_of_slope hy, slanted_cons_of_slope (Ne.symm hy), Sym2.eq_swap, ih]

end Slanted

namespace Edge

def side (e : Edge) : Sym2 Vertex := s(e.top, e.bottom)

theorem side_injective : Function.Injective side := by
  intro e f h
  have he := e.top_lt_bottom
  have hf := f.top_lt_bottom
  obtain ⟨top, bottom, _⟩ := e
  obtain ⟨top', bottom', _⟩ := f
  rcases Sym2.eq_iff.mp h with ⟨rfl, rfl⟩ | ⟨rfl, rfl⟩
  · rfl
  · exact absurd hf he.not_gt

theorem side_of_between? {a b : Vertex} {e : Edge} (h : between? a b = some e) :
    a.y ≠ b.y ∧ e.side = s(a, b) := by
  unfold between? at h
  split_ifs at h with hab hba
  · obtain rfl := Option.some.inj h
    exact ⟨hab.ne, rfl⟩
  · obtain rfl := Option.some.inj h
    exact ⟨hba.ne', Sym2.eq_swap⟩

theorem between?_eq_none {a b : Vertex} (h : between? a b = none) : a.y = b.y := by
  unfold between? at h
  split_ifs at h
  omega

end Edge

theorem map_side_outline (placement : Placement) (vertices : List Vertex) :
    ((outline placement vertices).map Edge.side : Multiset (Sym2 Vertex)) =
      slantedSides (vertices.map placement.apply) := by
  unfold outline slantedSides
  induction sides (vertices.map placement.apply) with
  | nil => rfl
  | cons side rest ih =>
    obtain ⟨a, b⟩ := side
    rw [List.filterMap_cons]
    dsimp only
    cases h : Edge.between? a b with
    | none =>
      rw [slanted_cons_of_level (Edge.between?_eq_none h)]
      exact ih
    | some e =>
      obtain ⟨hy, hside⟩ := Edge.side_of_between? h
      rw [slanted_cons_of_slope hy, ← hside, ← ih]
      rfl

theorem outline_perm_of_slantedSides {placement placement' : Placement}
    {vertices vertices' : List Vertex} (h : slantedSides (vertices.map placement.apply) =
      slantedSides (vertices'.map placement'.apply)) :
    (outline placement vertices).Perm (outline placement' vertices') := by
  rw [← map_side_outline, ← map_side_outline, Multiset.coe_eq_coe] at h
  exact (List.map_perm_map_iff Edge.side_injective).mp h

section Points

variable (points : List Vertex)

theorem sides_eq_zip_rotate : sides points = points.zip (points.rotate 1) := by
  cases points <;> simp [sides]

theorem sides_rotate (n : Nat) : sides (points.rotate n) = (sides points).rotate n := by
  rw [sides_eq_zip_rotate, sides_eq_zip_rotate, List.rotate_rotate, Nat.add_comm,
    ← List.rotate_rotate]
  exact (List.zipWith_rotate_distrib Prod.mk points (points.rotate 1) n (by simp)).symm

theorem slantedSides_rotate (n : Nat) : slantedSides (points.rotate n) = slantedSides points := by
  rw [slantedSides, sides_rotate]
  exact slanted_eq_of_perm (List.rotate_perm ..)

theorem sides_reverse_rotate :
    sides (points.rotate 1).reverse = (sides points).reverse.map Prod.swap := by
  cases points with
  | nil => rfl
  | cons a rest =>
    have hzip : ((a :: rest).zip (rest ++ [a])).reverse =
        (a :: rest).reverse.zip (rest ++ [a]).reverse :=
      List.reverse_zipWith (by simp)
    rw [List.rotate_cons_succ, List.rotate_zero]
    simp only [sides, List.tail_cons, List.take_succ_cons, List.take_zero, hzip, List.zip_swap]
    simp

theorem slantedSides_reverse : slantedSides points.reverse = slantedSides points := by
  calc slantedSides points.reverse
      = slantedSides (points.rotate 1).reverse := by
        rw [List.reverse_rotate, slantedSides_rotate]
    _ = slanted ((sides points).reverse.map Prod.swap) := by
        rw [slantedSides, sides_reverse_rotate]
    _ = slanted (sides points).reverse := slanted_map_swap
    _ = slantedSides points := slanted_eq_of_perm (List.reverse_perm _)

end Points

/-- The sides of a walk from `a` by way of `points` to `z`. -/
def walk (a : Vertex) (points : List Vertex) (z : Vertex) : List (Vertex × Vertex) :=
  (a :: points).zip (points ++ [z])

theorem slanted_walk_replicate (a : Vertex) (n : Nat) (points : List Vertex) (z : Vertex) :
    slanted (walk a (List.replicate n a ++ points) z) = slanted (walk a points z) := by
  induction n with
  | zero => rfl
  | succ n ih => exact (slanted_cons_of_level rfl).trans ih

/-- Each vertex of a list, repeated in place as often as stands beside it. -/
def repeated (stays : List (Vertex × Nat)) : List Vertex :=
  stays.flatMap fun (v, n) => List.replicate (n + 1) v

theorem map_repeated (f : Vertex → Vertex) (stays : List (Vertex × Nat)) :
    (repeated stays).map f = repeated (stays.map (Prod.map f id)) := by
  simp [repeated, List.map_flatMap, List.flatMap_map]

theorem slanted_walk_repeated (a : Vertex) (stays : List (Vertex × Nat)) (z : Vertex) :
    slanted (walk a (repeated stays) z) = slanted (walk a (stays.map Prod.fst) z) := by
  induction stays generalizing a with
  | nil => rfl
  | cons stay rest ih =>
    obtain ⟨v, n⟩ := stay
    exact slanted_cons_congr ((slanted_walk_replicate v n (repeated rest) z).trans (ih v))

theorem slantedSides_repeated (stays : List (Vertex × Nat)) :
    slantedSides (repeated stays) = slantedSides (stays.map Prod.fst) := by
  cases stays with
  | nil => rfl
  | cons stay rest =>
    obtain ⟨v, n⟩ := stay
    exact (slanted_walk_replicate v n (repeated rest) v).trans (slanted_walk_repeated v rest v)

theorem slantedSides_append_first (points : List Vertex) :
    slantedSides (points ++ points.take 1) = slantedSides points := by
  cases points with
  | nil => rfl
  | cons a rest =>
    calc slantedSides (a :: rest ++ [a])
        = slantedSides ((a :: a :: rest).rotate 1) := by
          rw [List.rotate_cons_succ, List.rotate_zero]
      _ = slantedSides (a :: a :: rest) := slantedSides_rotate ..
      _ = slantedSides (a :: rest) := slanted_cons_of_level rfl

theorem Plane.fill_eq_of_slantedSides (p : Plane) (clear : Bool) {placement placement' : Placement}
    {vertices vertices' : List Vertex} (h : slantedSides (vertices.map placement.apply) =
      slantedSides (vertices'.map placement'.apply)) :
    p.fill placement vertices clear = p.fill placement' vertices' clear := by
  rw [fill, fill, Rasterizer.spans_eq_of_perm (outline_perm_of_slantedSides h)]

theorem Plane.fill_repeated (p : Plane) (placement : Placement) (stays : List (Vertex × Nat))
    (clear : Bool) :
    p.fill placement (repeated stays) clear = p.fill placement (stays.map Prod.fst) clear := by
  refine p.fill_eq_of_slantedSides clear ?_
  rw [map_repeated, slantedSides_repeated, List.map_map, List.map_map]
  rfl

namespace Rasterizer

/-- Vertex lists whose placed polygons have the same slanted sides fill alike. So a list can be
turned or reversed, its vertices repeated in place and the first one once more at the end. -/
theorem fill_hangs_on_slanted_sides (z w : Rasterizer) (p : Plane) (clear : Bool) :
    (∀ vertices others, slantedSides (vertices.map z.placement.apply) =
        slantedSides (others.map w.placement.apply) →
      (z.fill p vertices clear).1 = (w.fill p others clear).1) ∧
    (∀ vertices n, (z.fill p (vertices.rotate n) clear).1 = (z.fill p vertices clear).1) ∧
    (∀ vertices, (z.fill p vertices.reverse clear).1 = (z.fill p vertices clear).1) ∧
    (∀ stays, (z.fill p (repeated stays) clear).1 = (z.fill p (stays.map Prod.fst) clear).1) ∧
    (∀ vertices, (z.fill p (vertices ++ vertices.take 1) clear).1 =
      (z.fill p vertices clear).1) := by
  simp only [fill_fst]
  refine ⟨fun vertices others h => p.fill_eq_of_slantedSides clear h, ?_, ?_, ?_, ?_⟩
  · intro vertices n
    refine p.fill_eq_of_slantedSides clear ?_
    rw [List.map_rotate, slantedSides_rotate]
  · intro vertices
    refine p.fill_eq_of_slantedSides clear ?_
    rw [List.map_reverse, slantedSides_reverse]
  · exact fun stays => p.fill_repeated z.placement stays clear
  · intro vertices
    refine p.fill_eq_of_slantedSides clear ?_
    rw [List.map_append, List.map_take, slantedSides_append_first]

/-- Two triangles that share a vertex, gone round in two ways that no turn and no reversal
leads from one to the other. -/
theorem fill_of_two_circuits :
    let z := ofPlacement .identity
    let w := z.build (outline .identity [⟨1, 1⟩, ⟨1, 6⟩, ⟨6, 1⟩]) 1 6
    let p := Plane.dark 1 8 8 9
    let vertices : List Vertex := [⟨3, 4⟩, ⟨0, 2⟩, ⟨6, 1⟩, ⟨3, 4⟩, ⟨0, 7⟩, ⟨6, 6⟩]
    let others : List Vertex := [⟨3, 4⟩, ⟨0, 2⟩, ⟨6, 1⟩, ⟨3, 4⟩, ⟨6, 6⟩, ⟨0, 7⟩]
    slantedSides (vertices.map z.placement.apply) = slantedSides (others.map w.placement.apply) ∧
      (z.fill p vertices false).1.data[11]? = some p.pen ∧
      (z.fill p vertices false).1 = (w.fill p others false).1 := by
  intro z w p vertices others
  have hsides : slantedSides (vertices.map z.placement.apply) =
      slantedSides (others.map w.placement.apply) := by decide +kernel
  exact ⟨hsides, by cbv,
    (z.fill_hangs_on_slanted_sides w p false).1 vertices others hsides⟩

end Rasterizer

end Bitplane
