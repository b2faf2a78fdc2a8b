import Bitplane.Proofs.Fill.Toggle
import Bitplane.Proofs.Plane.Redraw

/-! # Fills as masks

A fill lays a mask over the buffer of a plane by exclusive or. The mask follows from
the polygon, the placement and the geometry, so fills commute and cancel.
-/

namespace Bitplane

namespace Bytes

/-- The exclusive or of two strings byte by byte, as long as the first. -/
def xor (data mask : Bytes) : Bytes := data.mapIdx fun i byte => byte ^^^ mask.getD i 0

variable (data mask other : Bytes)

@[simp] theorem size_xor : (data.xor mask).size = data.size := Array.size_mapIdx

@[simp] theorem getElem?_xor (i : Nat) :
    (data.xor mask)[i]? = data[i]?.map (· ^^^ mask.getD i 0) := Array.getElem?_mapIdx

theorem xor_xor_self : (data.xor mask).xor mask = data := by
  refine Array.ext_getElem? fun i => ?_
  have hself : (· ^^^ mask.getD i 0) ∘ (· ^^^ mask.getD i 0) = @id UInt8 :=
    funext fun byte => by
      rw [Function.comp_apply, UInt8.xor_assoc, UInt8.xor_self, UInt8.xor_zero, id]
  rw [getElem?_xor, getElem?_xor, Option.map_map, hself, Option.map_id_fun, id]

theorem xor_right_comm : (data.xor mask).xor other = (data.xor other).xor mask := by
  refine Array.ext_getElem? fun i => ?_
  simp only [getElem?_xor, Option.map_map]
  refine congrArg (Option.map · data[i]?) (funext fun byte => ?_)
  simp only [Function.comp_apply, UInt8.xor_assoc, UInt8.xor_comm (mask.getD i 0)]

end Bytes

namespace Plane

variable (p : Plane)

/-- Lays a mask over the buffer. -/
def xorMask (mask : Bytes) : Plane := p.withData (p.data.xor mask) (Bytes.size_xor ..)

@[simp] theorem data_xorMask (mask : Bytes) : (p.xorMask mask).data = p.data.xor mask := rfl

@[simp] theorem geometry_xorMask (mask : Bytes) : (p.xorMask mask).geometry = p.geometry := rfl

theorem xorMask_xorMask_self (mask : Bytes) : (p.xorMask mask).xorMask mask = p :=
  eq_of_geometry (by simp) (by simp [Bytes.xor_xor_self])

theorem xorMask_right_comm (mask other : Bytes) :
    (p.xorMask mask).xorMask other = (p.xorMask other).xorMask mask :=
  eq_of_geometry (by simp) (by simp [Bytes.xor_right_comm p.data])

theorem toggled_eq_xor (pen : UInt8) (count : Nat) (byte : UInt8) :
    toggled pen count byte = byte ^^^ toggled pen count 0 := by
  unfold toggled
  split <;> simp

/-- Spans toggle the bytes that they light on a dark plane. -/
theorem xorSpans_eq_xorMask (spans : List Span) :
    p.xorSpans spans =
      p.xorMask ((dark p.index p.width p.height p.stride).xorSpans spans).data := by
  have hstride : max p.stride p.width = p.stride := Nat.max_eq_left p.width_le_stride
  have hrun (y x₀ x₁ : Int) :
      (dark p.index p.width p.height p.stride).run y x₀ x₁ = p.run y x₀ x₁ := by
    simp only [run, place, dark, hstride]
  refine eq_of_geometry rfl (Array.ext_getElem? fun i => ?_)
  simp only [xorMask, xorSpans, withData, Bytes.getElem?_xor, getElem?_xorRuns,
    Array.getD_eq_getD_getElem?, hrun]
  by_cases hi : i < p.data.size
  · have hdark : (dark p.index p.width p.height p.stride).data[i]? = some 0 := by
      rw [p.size_data] at hi
      simp [dark, hstride, hi]
    rw [hdark, Option.map_some, Option.getD_some]
    exact congrArg (Option.map · p.data[i]?) (funext fun byte => toggled_eq_xor ..)
  · rw [Array.getElem?_eq_none (Nat.le_of_not_lt hi), Option.map_none, Option.map_none]

end Plane

/-- The mask of a polygon: what its fill lights on a dark plane of the geometry. -/
def fillMask (placement : Placement) (vertices : List Vertex) (index : UInt8)
    (width height stride : Nat) : Bytes :=
  ((Plane.dark index width height stride).fill placement vertices false).data

namespace Rasterizer

variable (z : Rasterizer) (p : Plane) (vertices : List Vertex)

theorem fill_eq_xorMask : (z.fill p vertices false).1 =
    p.xorMask (fillMask z.placement vertices p.index p.width p.height p.stride) := by
  rw [fill_fst]
  exact p.xorSpans_eq_xorMask _

theorem fill_fill_eq_xorMask (other : List Vertex) :
    ((z.fill p vertices false).2.fill (z.fill p vertices false).1 other false).1 =
      (p.xorMask (fillMask z.placement vertices p.index p.width p.height p.stride)).xorMask
        (fillMask z.placement other p.index p.width p.height p.stride) := by
  rw [fill_eq_xorMask, placement_fill, fill_eq_xorMask]
  rfl

/-- Of fills without clearing each is its own inverse and any two commute, whatever the plane
and the buffers hold. Clearing on the way is clearing first. A fill lays a mask over the plane
that hangs on nothing but the polygon, the placement and the geometry. -/
theorem fills_commute_and_cancel (other : List Vertex) :
    let once := z.fill p vertices false
    let instead := z.fill p other false
    (once.2.fill once.1 vertices false).1 = p ∧
    (once.2.fill once.1 other false).1 = (instead.2.fill instead.1 vertices false).1 ∧
    (z.fill p vertices true).1 = ((ofPlacement z.placement).fill p.clear vertices false).1 ∧
    once.1 = p.xorMask (fillMask z.placement vertices p.index p.width p.height p.stride) := by
  refine ⟨?cancel, ?commute, ?clear, z.fill_eq_xorMask p vertices⟩
  case cancel =>
    rw [fill_fill_eq_xorMask]
    exact p.xorMask_xorMask_self _
  case commute =>
    rw [fill_fill_eq_xorMask, fill_fill_eq_xorMask]
    exact p.xorMask_right_comm ..
  case clear =>
    rw [fill_fst, fill_fst]
    rfl

end Rasterizer

end Bitplane
