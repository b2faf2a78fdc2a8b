import Bitplane.Proofs.Options
import Bitplane.Proofs.Polygon
import Bitplane.Proofs.Tween.Ends

/-! # Tweens in motion

A tween leads every vertex of one record to the vertex of the other that is matched with it.
On its way no coordinate turns round, and up to the last step none leaves the span between
its ends. Backwards in time a tween is the tween the other way.
-/

namespace Bitplane.Tween

/-! ## One coordinate -/

section Blend

variable {t later tMax : UInt8} {a b : Int}

theorem blend_eq (ht : tMax ≠ 0) (t : UInt8) (a b : Int) :
    blend t tMax a b = a + t.toNat * (b - a) / tMax.toNat := by
  rw [blend, Int.add_comm, Int.add_mul_ediv_right _ _ (toNat_ne_zero ht), Int.add_comm]

theorem blend_le_blend (ht : tMax ≠ 0)
    (hle : (t.toNat : Int) * (b - a) ≤ later.toNat * (b - a)) :
    blend t tMax a b ≤ blend later tMax a b := by
  have hpos : (0 : Int) < tMax.toNat := by
    have := toNat_ne_zero ht
    omega
  rw [blend_eq ht, blend_eq ht]
  exact Int.add_le_add_left (Int.ediv_le_ediv hpos hle) a

/-- How a coordinate moves from `a` to `b` in `tMax` steps: it never turns round, not even past
the last step, and up to there it stays between its ends. -/
structure Moves (tMax : UInt8) (a b : Int) (place : UInt8 → Int) : Prop where
  mono : a ≤ b → ∀ t later, t ≤ later → place t ≤ place later
  anti : b ≤ a → ∀ t later, t ≤ later → place later ≤ place t
  between : ∀ t ≤ tMax, min a b ≤ place t ∧ place t ≤ max a b

theorem moves_blend (ht : tMax ≠ 0) (a b : Int) : Moves tMax a b fun t => blend t tMax a b := by
  have hsteps (t later : UInt8) (hlater : t ≤ later) : (t.toNat : Int) ≤ later.toNat :=
    Int.ofNat_le.mpr (UInt8.le_iff_toNat_le.mp hlater)
  have hmono (hab : a ≤ b) (t later : UInt8) (hlater : t ≤ later) :
      blend t tMax a b ≤ blend later tMax a b :=
    blend_le_blend ht (Int.mul_le_mul_of_nonneg_right (hsteps t later hlater)
      (Int.sub_nonneg_of_le hab))
  have hanti (hba : b ≤ a) (t later : UInt8) (hlater : t ≤ later) :
      blend later tMax a b ≤ blend t tMax a b :=
    blend_le_blend ht (Int.mul_le_mul_of_nonpos_right (hsteps t later hlater)
      (Int.sub_nonpos_of_le hba))
  refine ⟨hmono, hanti, fun t hle => ?_⟩
  -- the ends are where the coordinate is at the first and at the last step
  have hfirst := blend_start ht a b
  have hlast := blend_stop ht a b
  rcases Int.le_total a b with hab | hba
  · rw [min_eq_left hab, max_eq_right hab]
    exact ⟨hfirst.ge.trans (hmono hab 0 t UInt8.zero_le), (hmono hab t tMax hle).trans hlast.le⟩
  · rw [min_eq_right hba, max_eq_left hba]
    exact ⟨hlast.ge.trans (hanti hba t tMax hle), (hanti hba 0 t UInt8.zero_le).trans hfirst.le⟩

theorem blend_swap (hle : t ≤ tMax) (a b : Int) :
    blend (tMax - t) tMax b a = blend t tMax a b := by
  have hsteps : ((tMax - t).toNat : Int) = tMax.toNat - t.toNat := by
    rw [UInt8.toNat_sub_of_le _ _ hle, Int.ofNat_sub (UInt8.le_iff_toNat_le.mp hle)]
  have hnumerator : b * tMax.toNat + (tMax.toNat - t.toNat) * (a - b) =
      a * (tMax.toNat : Int) + t.toNat * (b - a) := by ring
  rw [blend, hsteps, hnumerator, blend]

end Blend

/-! ## One vertex -/

section Between

variable {a b : Polygon} {points i : Nat}

theorem getElem?_spread (hsize : 0 < a.size) (hi : i < points) :
    (spread points a)[i]? = a.vertices[i * a.size / points]? := by
  rw [spread, getElem?_filterMap_of_isSome, List.getElem?_range hi]
  · rfl
  · intro j hj
    exact Option.isSome_iff_exists.mpr
      ⟨_, List.getElem?_eq_getElem (place_lt hsize (List.mem_range.mp hj))⟩

theorem size_between (hempty : a.size = 0 ↔ b.size = 0) (t tMax : UInt8) :
    (between t tMax a b).size = max a.size b.size := by
  rcases Nat.eq_zero_or_pos a.size with ha | ha
  · rw [between, ha, hempty.mp ha]
    rfl
  · have hb : 0 < b.size := by omega
    rw [between, Polygon.size, List.length_zipWith, length_spread ha, length_spread hb, min_self]

theorem exists_getElem?_between (hempty : a.size = 0 ↔ b.size = 0)
    (hi : i < max a.size b.size) :
    ∃ v w, a.vertices[i * a.size / max a.size b.size]? = some v ∧
      b.vertices[i * b.size / max a.size b.size]? = some w ∧
      ∀ t tMax, (between t tMax a b).vertices[i]? = some (blendVertex t tMax v w) := by
  have ha : 0 < a.size := by omega
  have hb : 0 < b.size := by omega
  obtain ⟨v, hv⟩ : ∃ v, a.vertices[i * a.size / max a.size b.size]? = some v :=
    ⟨_, List.getElem?_eq_getElem (place_lt ha hi)⟩
  obtain ⟨w, hw⟩ : ∃ w, b.vertices[i * b.size / max a.size b.size]? = some w :=
    ⟨_, List.getElem?_eq_getElem (place_lt hb hi)⟩
  refine ⟨v, w, hv, hw, fun t tMax => ?_⟩
  rw [between, List.getElem?_zipWith, getElem?_spread ha hi, getElem?_spread hb hi, hv, hw]

theorem exists_of_mem_between (hempty : a.size = 0 ↔ b.size = 0) {t tMax : UInt8} {u : Vertex}
    (hu : u ∈ (between t tMax a b).vertices) :
    ∃ v ∈ a.vertices, ∃ w ∈ b.vertices, u = blendVertex t tMax v w := by
  obtain ⟨i, hi, rfl⟩ := List.mem_iff_getElem.mp hu
  obtain ⟨v, w, hv, hw, hvertex⟩ :=
    exists_getElem?_between hempty (Nat.lt_of_lt_of_eq hi (size_between hempty t tMax))
  exact ⟨v, List.mem_of_getElem? hv, w, List.mem_of_getElem? hw,
    (List.getElem_eq_iff hi).mpr (hvertex t tMax)⟩

theorem between_swap {t tMax : UInt8} (hle : t ≤ tMax) (a b : Polygon) :
    between (tMax - t) tMax b a = between t tMax a b := by
  have hvertex : (fun v w => blendVertex (tMax - t) tMax w v) = blendVertex t tMax := by
    funext v w
    rw [blendVertex, blend_swap hle, blend_swap hle, blendVertex]
  rw [between, Nat.max_comm, List.zipWith_comm, hvertex, between]

end Between

/-! ## Tweens of records -/

/-- Whether the record of a polygon stands at an offset, behind a polygon command. -/
def RecordAt (revision : Revision) (data : Bytes) (target : Nat) (shape : Polygon) : Prop :=
  ∃ tag plane stop, data[target]? = some tag ∧ revision.classify tag = .polygon plane ∧
    Polygon.read data (target + 1) = .ok (shape, stop)

variable {revision : Revision} {data : Bytes} {a b shape : Polygon} {t tMax : UInt8}

theorem resolve_eq_ok_iff {target : Nat} :
    resolve revision data target = .ok shape ↔ RecordAt revision data target shape := by
  rw [resolve_eq_iff]
  constructor
  · rintro (_ | _ | _ | ⟨htag, hclass, hread⟩)
    exact ⟨_, _, _, htag, hclass, hread⟩
  · rintro ⟨tag, plane, stop, htag, hclass, hread⟩
    exact .record htag hclass hread

theorem RecordAt.fitsRecord {target : Nat} (h : RecordAt revision data target shape) :
    shape.FitsRecord := by
  obtain ⟨tag, plane, stop, -, -, hread⟩ := h
  exact Polygon.fitsRecord_of_read hread

/-- There is a tween between two records of which both or neither are empty. -/
theorem polygon_eq_ok_iff {ref : TweenRef} :
    polygon revision data ref = .ok shape ↔
      ref.tMax ≠ 0 ∧ ∃ a b, RecordAt revision data ref.fromOffset a ∧
        RecordAt revision data ref.toOffset b ∧ (a.size = 0 ↔ b.size = 0) ∧
        shape = between ref.t ref.tMax a b := by
  constructor
  · intro h
    unfold polygon at h
    split at h
    case isTrue => cases h
    case isFalse ht =>
      simp only [bind_eq_ok_iff] at h
      obtain ⟨a, ha, b, hb, h⟩ := h
      split at h
      case isTrue => cases h
      case isFalse hsource =>
        split at h
        case isTrue => cases h
        case isFalse htarget =>
          cases h
          exact ⟨ht, a, b, resolve_eq_ok_iff.mp ha, resolve_eq_ok_iff.mp hb, by omega, rfl⟩
  · rintro ⟨ht, a, b, ha, hb, hempty, rfl⟩
    exact polygon_of_resolve ht (resolve_eq_ok_iff.mpr ha) (resolve_eq_ok_iff.mpr hb) hempty

theorem Moves.inByte {tMax t : UInt8} {a b : Int} {place : UInt8 → Int}
    (h : Moves tMax a b place) (hle : t ≤ tMax) (ha : 0 ≤ a ∧ a ≤ 255) (hb : 0 ≤ b ∧ b ≤ 255) :
    0 ≤ place t ∧ place t ≤ 255 := by
  have := h.between t hle
  omega

theorem fitsRecord_between (ht : tMax ≠ 0) (hle : t ≤ tMax) (ha : a.FitsRecord)
    (hb : b.FitsRecord) (hempty : a.size = 0 ↔ b.size = 0) :
    (between t tMax a b).FitsRecord := by
  have hsize := size_between hempty t tMax
  refine ⟨hsize ▸ Nat.max_le.mpr ⟨ha.size_le, hb.size_le⟩, fun u hu => ?_⟩
  obtain ⟨v, hv, w, hw, rfl⟩ := exists_of_mem_between hempty hu
  obtain ⟨hvy, hvy', hvx, hvx'⟩ := ha.inBytes v hv
  obtain ⟨hwy, hwy', hwx, hwx'⟩ := hb.inBytes w hw
  have hy := (moves_blend ht v.y w.y).inByte hle ⟨hvy, hvy'⟩ ⟨hwy, hwy'⟩
  have hx := (moves_blend ht v.x w.x).inByte hle ⟨hvx, hvx'⟩ ⟨hwx, hwx'⟩
  exact ⟨hy.1, hy.2, hx.1, hx.2⟩

/-- There is a tween exactly if it has a duration and its two offsets hold records of polygons,
both empty or both not. Then it is there at every step, with as many vertices as the larger
polygon. Each vertex moves from the one to the other that are matched with it, coordinate by
coordinate, so that none turns round and, up to the last step, none leaves the span between
its ends. So far the tween fits a record, and is read back from its own one as it is. -/
theorem tweens_move_between_records (revision : Revision) (data : Bytes) (source target : Nat)
    (tMax : UInt8) :
    (∀ t, (∃ shape, polygon revision data ⟨source, target, t, tMax⟩ = .ok shape) ↔
      tMax ≠ 0 ∧ ∃ a b, RecordAt revision data source a ∧ RecordAt revision data target b ∧
        (a.size = 0 ↔ b.size = 0)) ∧
    (tMax ≠ 0 → ∀ a b, RecordAt revision data source a → RecordAt revision data target b →
      (a.size = 0 ↔ b.size = 0) →
      let points := max a.size b.size
      ∃ shape : UInt8 → Polygon,
        (∀ t, polygon revision data ⟨source, target, t, tMax⟩ = .ok (shape t)) ∧
        (∀ t, (shape t).size = points) ∧
        (∀ i < points, ∃ v w, a.vertices[i * a.size / points]? = some v ∧
          b.vertices[i * b.size / points]? = some w ∧
          ∃ place : UInt8 → Vertex, (∀ t, (shape t).vertices[i]? = some (place t)) ∧
            Moves tMax v.y w.y (fun t => (place t).y) ∧
            Moves tMax v.x w.x fun t => (place t).x) ∧
        ∀ t ≤ tMax, (shape t).FitsRecord ∧
          ∀ (stream : Bytes) (offset : Nat), stream.Holds offset (shape t).record →
            Polygon.read stream offset = .ok (shape t, offset + (shape t).record.length)) := by
  refine ⟨fun t => ?exists_iff, fun ht a b ha hb hempty => ?motion⟩
  case exists_iff =>
    simp only [polygon_eq_ok_iff]
    constructor
    · rintro ⟨_, ht, a, b, ha, hb, hempty, -⟩
      exact ⟨ht, a, b, ha, hb, hempty⟩
    · rintro ⟨ht, a, b, ha, hb, hempty⟩
      exact ⟨_, ht, a, b, ha, hb, hempty, rfl⟩
  case motion =>
    refine ⟨fun t => between t tMax a b, fun t => ?_, fun t => size_between hempty t tMax,
      fun i hi => ?_, fun t hle => ?_⟩
    · exact polygon_eq_ok_iff.mpr ⟨ht, a, b, ha, hb, hempty, rfl⟩
    · obtain ⟨v, w, hv, hw, hvertex⟩ := exists_getElem?_between hempty hi
      exact ⟨v, w, hv, hw, fun t => blendVertex t tMax v w, fun t => hvertex t tMax,
        moves_blend ht v.y w.y, moves_blend ht v.x w.x⟩
    · have hfits := fitsRecord_between ht hle ha.fitsRecord hb.fitsRecord hempty
      exact ⟨hfits, fun stream offset hstream => hfits.read_record hstream⟩

/-- A point moves to the three vertices of a triangle. -/
theorem tween_moves_point_to_triangle :
    let data : Bytes := #[0xD2, 1, 10, 0, 0xD3, 3, 0, 10, 200, 255, 7, 7]
    let point : Polygon := ⟨[⟨10, 0⟩]⟩
    let triangle : Polygon := ⟨[⟨0, 10⟩, ⟨200, 255⟩, ⟨7, 7⟩]⟩
    let third : Polygon := ⟨[⟨6, 3⟩, ⟨73, 85⟩, ⟨9, 2⟩]⟩
    (3 : UInt8) ≠ 0 ∧ RecordAt .fourPlane data 0 point ∧ RecordAt .fourPlane data 4 triangle ∧
      (point.size = 0 ↔ triangle.size = 0) ∧ polygon .fourPlane data ⟨0, 4, 1, 3⟩ = .ok third ∧
      third.size = 3 ∧ third.FitsRecord ∧ Polygon.read third.record.toArray 0 = .ok (third, 7) := by
  intro data point triangle third
  have hpoint : RecordAt .fourPlane data 0 point := ⟨0xD2, 0, 4, rfl, by decide +kernel, rfl⟩
  have htriangle : RecordAt .fourPlane data 4 triangle := ⟨0xD3, 1, 12, rfl, by decide +kernel, rfl⟩
  have hempty : point.size = 0 ↔ triangle.size = 0 := by decide
  obtain ⟨shape, hshape, hsize, -, hfits⟩ := (tweens_move_between_records .fourPlane data 0 4 3).2
    (by decide) point triangle hpoint htriangle hempty
  have hthird : polygon .fourPlane data ⟨0, 4, 1, 3⟩ = .ok third := by cbv
  obtain heq : shape 1 = third := Except.ok.inj ((hshape 1).symm.trans hthird)
  obtain ⟨hfit, hread⟩ := hfits 1 (by decide)
  rw [heq] at hfit hread
  exact ⟨by decide, hpoint, htriangle, hempty, hthird, heq ▸ hsize 1, hfit,
    hread _ 0 (by simpa using Bytes.holds_append [] third.record [])⟩

/-- A tween runs backwards as the tween the other way does forwards: the two are there for the
same steps, counted from opposite ends, and are equal. -/
theorem tweens_run_backwards (revision : Revision) (data : Bytes) (source target : Nat)
    {t tMax : UInt8} (hle : t ≤ tMax) (shape : Polygon) :
    polygon revision data ⟨source, target, t, tMax⟩ = .ok shape ↔
      polygon revision data ⟨target, source, tMax - t, tMax⟩ = .ok shape := by
  simp only [polygon_eq_ok_iff]
  constructor
  · rintro ⟨ht, a, b, ha, hb, hempty, rfl⟩
    exact ⟨ht, b, a, hb, ha, hempty.symm, (between_swap hle a b).symm⟩
  · rintro ⟨ht, b, a, hb, ha, hempty, rfl⟩
    exact ⟨ht, a, b, ha, hb, hempty.symm, between_swap hle a b⟩

/-- The point and the triangle from the other end: two steps back are one step forward, and
the coordinates are rounded down both ways. -/
theorem tween_runs_back_from_triangle :
    let data : Bytes := #[0xD2, 1, 10, 0, 0xD3, 3, 0, 10, 200, 255, 7, 7]
    let third : Polygon := ⟨[⟨6, 3⟩, ⟨73, 85⟩, ⟨9, 2⟩]⟩
    (1 : UInt8) ≤ 3 ∧ polygon .fourPlane data ⟨0, 4, 1, 3⟩ = .ok third ∧
      polygon .fourPlane data ⟨4, 0, 2, 3⟩ = .ok third := by
  intro data third
  have hthird : polygon .fourPlane data ⟨0, 4, 1, 3⟩ = .ok third := by cbv
  exact ⟨by decide, hthird,
    (tweens_run_backwards .fourPlane data 0 4 (by decide : (1 : UInt8) ≤ 3) third).mp hthird⟩

end Bitplane.Tween
