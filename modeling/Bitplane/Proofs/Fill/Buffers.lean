import Bitplane.Rasterizer

/-! # What a fill draws

A fill overwrites every buffer before it reads it. Its spans depend on the placement
and the polygon alone, whatever the rasterizer has filled before.
-/

namespace Bitplane

theorem Plane.xorSpans_append (p : Plane) (spans others : List Span) :
    p.xorSpans (spans ++ others) = (p.xorSpans spans).xorSpans others := by
  induction spans generalizing p with
  | nil => rfl
  | cons s rest ih => rw [List.cons_append, xorSpans_cons, xorSpans_cons, ih]

namespace Rasterizer

def spansFrom (top : Int) : (count : Nat) → (y : Int) → Rasterizer → List Span
  | 0, _, _ => []
  | count + 1, y, z =>
    let z := z.activate top y
    z.rowSpans y ++ spansFrom top count (y + 1) z.advance

theorem sweep_fst (top : Int) (count : Nat) (y : Int) (z : Rasterizer) (p : Plane) :
    (sweep top count y z p).1 = p.xorSpans (spansFrom top count y z) := by
  induction count generalizing y z p with
  | zero => rfl
  | succ count ih => rw [sweep, spansFrom, ih, Plane.xorSpans_append]

theorem placement_sweep (top : Int) (count : Nat) (y : Int) (z : Rasterizer) (p : Plane) :
    (sweep top count y z p).2.placement = z.placement := by
  induction count generalizing y z p with
  | zero => rfl
  | succ count ih => exact ih ..

theorem placement_link (z : Rasterizer) (top : Int) (i : Nat) :
    (z.link top i).placement = z.placement := by
  unfold link
  split <;> rfl

theorem placement_build (z : Rasterizer) (edges : List Edge) (top bottom : Int) :
    (z.build edges top bottom).placement = z.placement := by
  unfold build
  generalize List.range edges.length = numbers
  suffices h : ∀ z : Rasterizer,
      (numbers.foldl (fun z i => z.link top i) z).placement = z.placement from h _
  induction numbers with
  | nil => exact fun _ => rfl
  | cons i rest ih => exact fun z => (ih _).trans (z.placement_link top i)

def spans (placement : Placement) (vertices : List Vertex) : List Span :=
  let edges := outline placement vertices
  match rowRange? edges with
  | none => []
  | some (top, bottom) =>
    spansFrom top ((bottom - top).toNat + 1) top ((ofPlacement placement).build edges top bottom)

theorem build_eq (z : Rasterizer) (edges : List Edge) (top bottom : Int) :
    z.build edges top bottom = (ofPlacement z.placement).build edges top bottom := rfl

end Rasterizer

/-- A plane with the inside of a polygon toggled, made dark before with `clear`. -/
def Plane.fill (placement : Placement) (vertices : List Vertex) (clear : Bool) (p : Plane) :
    Plane :=
  (if clear then p.clear else p).xorSpans (Rasterizer.spans placement vertices)

namespace Rasterizer

variable (z : Rasterizer) (p : Plane) (vertices : List Vertex) (clear : Bool)

/-- Of a rasterizer nothing but the placement shows in what it fills. -/
theorem fill_fst : (z.fill p vertices clear).1 = p.fill z.placement vertices clear := by
  simp only [fill, Plane.fill, spans]
  cases rowRange? (outline z.placement vertices) with
  | none => rfl
  | some rows => exact (sweep_fst ..).trans (by rw [build_eq])

theorem placement_fill : (z.fill p vertices clear).2.placement = z.placement := by
  simp only [fill]
  cases rowRange? (outline z.placement vertices) with
  | none => rfl
  | some rows => exact (placement_sweep ..).trans (placement_build ..)

end Rasterizer

end Bitplane
