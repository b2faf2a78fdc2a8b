import Bitplane.Proofs.Fill.Buffers

/-! # Drawing a plane anew

Drawing changes the buffer of a plane and never its geometry. What is drawn after
a clearing depends on the geometry alone, not on what the plane held before.
-/

namespace Bitplane

namespace Plane

structure Geometry where
  index : UInt8
  width : Nat
  height : Nat
  stride : Nat
  offset : Nat
  deriving DecidableEq, Repr

variable (p : Plane)

def geometry : Geometry := ⟨p.index, p.width, p.height, p.stride, p.offset⟩

/-- Whether every byte of the buffer is zero, padding included. -/
def IsDark : Prop := ∀ byte ∈ p.data, byte = 0

instance : Decidable p.IsDark := inferInstanceAs (Decidable (∀ byte ∈ p.data, byte = 0))

@[simp] theorem geometry_clear : p.clear.geometry = p.geometry := rfl

@[simp] theorem geometry_fill (placement : Placement) (vertices : List Vertex) (clear : Bool) :
    (p.fill placement vertices clear).geometry = p.geometry := by
  cases clear <;> rfl

theorem eq_of_geometry {p q : Plane} (hgeometry : p.geometry = q.geometry)
    (hdata : p.data = q.data) : p = q := by
  cases p
  cases q
  simp only [geometry, Geometry.mk.injEq] at hgeometry
  obtain ⟨rfl, rfl, rfl, rfl, rfl⟩ := hgeometry
  cases hdata
  rfl

theorem isDark_clear : p.clear.IsDark := by
  intro byte hbyte
  obtain ⟨-, -, rfl⟩ := Array.mem_map.mp hbyte
  rfl

theorem size_eq_of_geometry {p q : Plane} (h : p.geometry = q.geometry) :
    p.data.size = q.data.size := by
  simp only [geometry, Geometry.mk.injEq] at h
  rw [p.size_data, q.size_data, h.2.2.1, h.2.2.2.1]

/-- There is one dark plane of each geometry, and clearing leads to it. -/
theorem clear_eq_of_isDark {p z : Plane} (hz : z.IsDark) (h : z.geometry = p.geometry) :
    p.clear = z := by
  refine eq_of_geometry (p.geometry_clear.trans h.symm) (Array.ext ?_ fun i hi hi' => ?_)
  · rw [size_eq_of_geometry h]
    exact Array.size_map
  · have hbyte : p.clear.data[i] = 0 := p.isDark_clear _ (Array.getElem_mem hi)
    rw [hbyte, hz _ (Array.getElem_mem hi')]

theorem clear_eq_clear {p q : Plane} (h : p.geometry = q.geometry) : p.clear = q.clear :=
  clear_eq_of_isDark q.isDark_clear (q.geometry_clear.trans h.symm)

def fillAll (placement : Placement) (shapes : List Polygon) : Plane :=
  shapes.foldl (fun p shape => p.fill placement shape.vertices false) p

theorem geometry_fillAll (placement : Placement) (shapes : List Polygon) :
    (p.fillAll placement shapes).geometry = p.geometry := by
  induction shapes generalizing p with
  | nil => rfl
  | cons shape rest ih => exact (ih _).trans (p.geometry_fill ..)

/-- The plane after a frame that draws these shapes into it. -/
def redraw (placement : Placement) (shapes : List Polygon) (p : Plane) : Plane :=
  if shapes.isEmpty then p else p.clear.fillAll placement shapes

theorem redraw_of_ne_nil (placement : Placement) {shapes : List Polygon} (h : shapes ≠ []) :
    p.redraw placement shapes = p.clear.fillAll placement shapes := by
  cases shapes with
  | nil => exact absurd rfl h
  | cons => rfl

@[simp] theorem redraw_nil (placement : Placement) : p.redraw placement [] = p := rfl

theorem geometry_redraw (placement : Placement) (shapes : List Polygon) :
    (p.redraw placement shapes).geometry = p.geometry := by
  cases shapes with
  | nil => rfl
  | cons => exact p.clear.geometry_fillAll ..

theorem redraw_concat (placement : Placement) (shapes : List Polygon) (shape : Polygon) :
    p.redraw placement (shapes ++ [shape]) =
      (p.redraw placement shapes).fill placement shape.vertices shapes.isEmpty := by
  rw [redraw_of_ne_nil _ _ (by simp), fillAll, List.foldl_append]
  cases shapes <;> rfl

theorem redraw_congr {p q : Plane} (h : p.geometry = q.geometry) (placement : Placement)
    {shapes : List Polygon} (hshapes : shapes ≠ []) :
    p.redraw placement shapes = q.redraw placement shapes := by
  rw [redraw_of_ne_nil _ _ hshapes, redraw_of_ne_nil _ _ hshapes, clear_eq_clear h]

theorem redraw_redraw (placement : Placement) (shapes later : List Polygon) :
    (p.redraw placement shapes).redraw placement later =
      p.redraw placement (if later = [] then shapes else later) := by
  split
  case isTrue h => rw [h, redraw_nil]
  case isFalse h => exact redraw_congr (p.geometry_redraw ..) placement h

end Plane

theorem Rasterizer.fillNotice?_congr {z w : Rasterizer} (hplacement : z.placement = w.placement)
    {p q : Plane} (hgeometry : p.geometry = q.geometry) (vertices : List Vertex) :
    z.fillNotice? p vertices = w.fillNotice? q vertices := by
  have hindex : p.index = q.index := congrArg Plane.Geometry.index hgeometry
  simp only [fillNotice?, hplacement, hindex]

end Bitplane
