import Bitplane.Proofs.DrawList.Runs
import Bitplane.Tween

/-! # Records under a tween

A tween finds its polygons by the offsets of their command bytes. It takes a record at an
offset for a polygon exactly if the decoder does, for the same one, and what the decoder
misses at the end of the data the tween misses there too.
-/

namespace Bitplane

variable {revision : Revision} {data : Bytes} {target : Nat}

theorem Revision.isPolygon_iff_classify {command : UInt8} :
    revision.isPolygon command ↔ ∃ plane, revision.classify command = .polygon plane := by
  unfold classify
  constructor
  · intro h
    exact ⟨_, if_pos h⟩
  · rintro ⟨plane, h⟩
    refine Decidable.byContradiction fun hpolygon => ?_
    rw [if_neg hpolygon] at h
    split at h
    · cases h
    · split at h <;> cases h

namespace Tween

/-- What the record at an offset comes to, told by the reader of polygons. -/
inductive Resolution (revision : Revision) (data : Bytes) (target : Nat) :
    Except TweenFault Polygon → Prop
  | outside : data.size ≤ target → Resolution revision data target (.error (.outOfBounds target))
  | other {tag : UInt8} :
      data[target]? = some tag → (∀ plane, revision.classify tag ≠ .polygon plane) →
      Resolution revision data target (.error (.notAPolygon target tag))
  | cut {tag plane : UInt8} {offset missing needed : Nat} :
      data[target]? = some tag → revision.classify tag = .polygon plane →
      Polygon.read data (target + 1) = .error (.unexpectedEnd offset missing) →
      target + needed = offset + missing →
      Resolution revision data target (.error (.truncated target needed))
  | record {tag plane : UInt8} {shape : Polygon} {stop : Nat} :
      data[target]? = some tag → revision.classify tag = .polygon plane →
      Polygon.read data (target + 1) = .ok (shape, stop) →
      Resolution revision data target (.ok shape)

theorem exists_resolution (revision : Revision) (data : Bytes) (target : Nat) :
    ∃ result, Resolution revision data target result := by
  cases htag : data[target]? with
  | none => exact ⟨_, .outside (Array.getElem?_eq_none_iff.mp htag)⟩
  | some tag =>
    by_cases hclass : ∃ plane, revision.classify tag = .polygon plane
    · obtain ⟨plane, hplane⟩ := hclass
      cases hread : Polygon.read data (target + 1) with
      | ok found => exact ⟨_, .record htag hplane hread⟩
      | error fault =>
        rcases Polygon.read_eq_error_iff.mp hread with ⟨-, rfl⟩ | ⟨count, -, -, rfl⟩
        · exact ⟨.error (.truncated target 2), .cut htag hplane hread rfl⟩
        · exact ⟨.error (.truncated target (2 + 2 * count.toNat)),
            .cut htag hplane hread (by omega)⟩
    · exact ⟨_, .other htag fun plane hplane => hclass ⟨plane, hplane⟩⟩

theorem Resolution.eq {result : Except TweenFault Polygon}
    (h : Resolution revision data target result) : resolve revision data target = result := by
  cases h with
  | outside hle => rw [resolve, Array.getElem?_eq_none hle]
  | other htag hclass =>
    have hother : revision.isPolygon _ ≠ true := fun h =>
      have ⟨plane, hplane⟩ := Revision.isPolygon_iff_classify.mp h
      hclass plane hplane
    simp only [resolve, htag, hother, Bool.not_false, if_true]
  | @cut _ _ _ _ needed htag hclass hread hneeded =>
    have hpolygon := Revision.isPolygon_iff_classify.mpr ⟨_, hclass⟩
    simp only [resolve, htag, hpolygon, Bool.not_true, Bool.false_eq_true, if_false]
    rcases Polygon.read_eq_error_iff.mp hread with ⟨hle, hfault⟩ | ⟨count, hcount, hpart, hfault⟩
    · cases hfault
      obtain rfl : needed = 2 := by omega
      rw [Array.getElem?_eq_none hle]
    · cases hfault
      obtain rfl : needed = 2 + 2 * count.toNat := by omega
      simp only [hcount, hpart]
  | record htag hclass hread =>
    have hpolygon := Revision.isPolygon_iff_classify.mpr ⟨_, hclass⟩
    obtain ⟨count, part, hcount, hpart, rfl, rfl⟩ := Polygon.read_eq_ok_iff.mp hread
    simp only [resolve, htag, hpolygon, hcount, hpart, Bool.not_true, Bool.false_eq_true, if_false]

theorem resolve_eq_iff {result : Except TweenFault Polygon} :
    resolve revision data target = result ↔ Resolution revision data target result := by
  constructor
  · rintro rfl
    obtain ⟨result, h⟩ := exists_resolution revision data target
    rwa [h.eq]
  · exact Resolution.eq

/-! ## Shapes between records -/

theorem polygon_of_resolve {ref : TweenRef} {a b : Polygon} (ht : ref.tMax ≠ 0)
    (ha : resolve revision data ref.fromOffset = .ok a)
    (hb : resolve revision data ref.toOffset = .ok b) (hempty : a.size = 0 ↔ b.size = 0) :
    polygon revision data ref = .ok (between ref.t ref.tMax a b) := by
  have hleft : ¬(a.size = 0 ∧ 0 < b.size) := by omega
  have hright : ¬(0 < a.size ∧ b.size = 0) := by omega
  simp only [polygon, ha, hb, if_neg ht, if_neg hleft, if_neg hright, Bind.bind, Except.bind]
  rfl

theorem toNat_ne_zero {tMax : UInt8} (h : tMax ≠ 0) : (tMax.toNat : Int) ≠ 0 := by
  intro hzero
  exact h (UInt8.toNat_inj.mp (Int.ofNat_eq_zero.mp hzero))

theorem blend_self {tMax : UInt8} (h : tMax ≠ 0) (t : UInt8) (a : Int) : blend t tMax a a = a := by
  rw [blend, Int.sub_self, Int.mul_zero, Int.add_zero, Int.mul_ediv_cancel _ (toNat_ne_zero h)]

theorem spread_size (p : Polygon) : spread p.size p = p.vertices := by
  have htake : ∀ n ≤ p.size,
      (List.range n).filterMap (fun i => p.vertices[i * p.size / p.size]?) = p.vertices.take n := by
    intro n hn
    induction n with
    | zero => rfl
    | succ n ih =>
      have hlt : n < p.vertices.length := hn
      have hplace : n * p.size / p.size = n := Nat.mul_div_cancel n (Nat.zero_lt_of_lt hn)
      rw [List.range_succ, List.filterMap_append, ih (by omega), List.filterMap_cons, hplace,
        List.getElem?_eq_getElem hlt, List.filterMap_nil, List.take_succ_eq_append_getElem hlt]
  rw [spread, htake p.size (Nat.le_refl _)]
  exact List.take_length

theorem between_self {tMax : UInt8} (h : tMax ≠ 0) (t : UInt8) (p : Polygon) :
    between t tMax p p = p := by
  have hvertex : (fun v => blendVertex t tMax v v) = id := by
    funext v
    rw [blendVertex, blend_self h, blend_self h]
    rfl
  rw [between, Nat.max_self, spread_size, List.zipWith_self, hvertex, List.map_id]

/-- A tween finds the polygon at an offset exactly if a polygon command stands there and its
record can be read behind it. It names the offset where there is no byte, the byte where that
is no polygon command, and a record that the data cuts off exactly if the reader misses bytes
of it, up to the same end. So does the decoder of a draw list. Between a record and itself
there is nothing but its polygon. -/
theorem resolve_reads_records (revision : Revision) (data : Bytes) (target : Nat) :
    (∀ shape, resolve revision data target = .ok shape ↔
      ∃ tag plane stop, data[target]? = some tag ∧ revision.classify tag = .polygon plane ∧
        Polygon.read data (target + 1) = .ok (shape, stop)) ∧
    (∀ place, resolve revision data target = .error (.outOfBounds place) ↔
      place = target ∧ data.size ≤ target) ∧
    (∀ place tag, resolve revision data target = .error (.notAPolygon place tag) ↔
      place = target ∧ data[target]? = some tag ∧
        ∀ plane, revision.classify tag ≠ .polygon plane) ∧
    (∀ place needed, resolve revision data target = .error (.truncated place needed) ↔
      place = target ∧ ∃ tag plane offset missing,
        data[target]? = some tag ∧ revision.classify tag = .polygon plane ∧
        Polygon.read data (target + 1) = .error (.unexpectedEnd offset missing) ∧
        target + needed = offset + missing) ∧
    (∀ fault, resolve revision data target = .error fault →
      (∃ place, fault = .outOfBounds place) ∨ (∃ place tag, fault = .notAPolygon place tag) ∨
        ∃ place needed, fault = .truncated place needed) ∧
    (∀ shape, resolve revision data target = .ok shape ↔
      ∃ command plane stop,
        DrawOp.read revision data target = (.ok (.polygon target command plane shape), stop)) ∧
    ∀ tag plane shape stop, data[target]? = some tag → revision.classify tag = .polygon plane →
      Polygon.read data (target + 1) = .ok (shape, stop) →
      ∀ t tMax : UInt8, tMax ≠ 0 → polygon revision data ⟨target, target, t, tMax⟩ = .ok shape := by
  simp only [resolve_eq_iff, DrawOp.read_eq_ok_iff]
  refine ⟨fun shape => ?found, fun place => ?outside, fun place tag => ?other,
    fun place needed => ?cut, fun fault => ?faults, fun shape => ?decoded, ?self⟩
  case found =>
    constructor
    · rintro (_ | _ | _ | ⟨htag, hclass, hread⟩)
      exact ⟨_, _, _, htag, hclass, hread⟩
    · rintro ⟨tag, plane, stop, htag, hclass, hread⟩
      exact .record htag hclass hread
  case outside =>
    constructor
    · rintro ⟨hle⟩
      exact ⟨rfl, hle⟩
    · rintro ⟨rfl, hle⟩
      exact .outside hle
  case other =>
    constructor
    · rintro (_ | ⟨htag, hclass⟩)
      exact ⟨rfl, htag, hclass⟩
    · rintro ⟨rfl, htag, hclass⟩
      exact .other htag hclass
  case cut =>
    constructor
    · rintro (_ | _ | ⟨htag, hclass, hread, hneeded⟩)
      exact ⟨rfl, _, _, _, _, htag, hclass, hread, hneeded⟩
    · rintro ⟨rfl, tag, plane, offset, missing, htag, hclass, hread, hneeded⟩
      exact .cut htag hclass hread hneeded
  case faults =>
    rintro (_ | _ | _)
    · exact .inl ⟨_, rfl⟩
    · exact .inr (.inl ⟨_, _, rfl⟩)
    · exact .inr (.inr ⟨_, _, rfl⟩)
  case decoded =>
    constructor
    · rintro (_ | _ | _ | ⟨htag, hclass, hread⟩)
      exact ⟨_, _, _, .polygon htag hclass hread⟩
    · rintro ⟨command, plane, stop, ⟨htag, hclass, hread⟩⟩
      exact .record htag hclass hread
  case self =>
    intro tag plane shape stop htag hclass hread t tMax ht
    have hshape := (Resolution.record htag hclass hread).eq
    rw [polygon_of_resolve ht hshape hshape Iff.rfl, between_self ht]

/-- A record that ends with the data tweens into itself, past the end too; one that the data
cuts off is missed at the same place. -/
theorem resolve_reads_whole_and_cut_record :
    let data : Bytes := #[0xD2, 4, 0, 0xD2, 2, 1, 2, 3, 4]
    resolve .fourPlane data 0 = .error (.truncated 0 10) ∧
      resolve .fourPlane (data.take 4) 3 = .error (.truncated 3 2) ∧
      polygon .fourPlane data ⟨3, 3, 9, 4⟩ = .ok ⟨[⟨1, 2⟩, ⟨3, 4⟩]⟩ := by
  intro data
  obtain ⟨-, -, -, -, -, -, hself⟩ := resolve_reads_records .fourPlane data 3
  obtain ⟨-, -, -, hcut, -⟩ := resolve_reads_records .fourPlane data 0
  obtain ⟨-, -, -, hbare, -⟩ := resolve_reads_records .fourPlane (data.take 4) 3
  have hclass : Revision.fourPlane.classify 0xD2 = .polygon 0 := by decide +kernel
  refine ⟨(hcut 0 10).mpr ⟨rfl, 0xD2, 0, 2, 8, rfl, hclass, rfl, rfl⟩,
    (hbare 3 2).mpr ⟨rfl, 0xD2, 0, 4, 1, rfl, hclass, rfl, rfl⟩, ?_⟩
  exact hself 0xD2 0 _ 9 rfl hclass rfl 9 4 (by decide)

end Tween

end Bitplane
