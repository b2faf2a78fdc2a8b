import Bitplane.Proofs.DrawList.Written

/-! # Records of polygons

A record counts at most 255 vertices and gives a byte to each coordinate. It keeps what fits:
a polygon is read back from its record as far as it is counted, every coordinate saturated,
and a polygon that fits is read back as it is. Records are all that is read.
-/

namespace Bitplane

namespace Vertex

def InBytes (v : Vertex) : Prop := 0 ≤ v.y ∧ v.y ≤ 255 ∧ 0 ≤ v.x ∧ v.x ≤ 255

/-- Both coordinates brought into the range of a byte. -/
def clamped (v : Vertex) : Vertex := ⟨max 0 (min v.y 255), max 0 (min v.x 255)⟩

theorem inBytes_ofBytes (pair : UInt8 × UInt8) : (ofBytes pair).InBytes := by
  have hy := pair.1.toNat_lt
  have hx := pair.2.toNat_lt
  simp only [InBytes, ofBytes]
  omega

theorem clamped_eq_iff {v : Vertex} : v.clamped = v ↔ v.InBytes := by
  obtain ⟨y, x⟩ := v
  simp only [clamped, InBytes, Vertex.mk.injEq]
  omega

end Vertex

namespace Polygon

theorem toNat_saturate (coordinate : Int) :
    ((saturate coordinate).toNat : Int) = max 0 (min coordinate 255) := by
  rw [saturate, UInt8.toNat_ofNat']
  omega

theorem ofBytes_saturate (v : Vertex) :
    Vertex.ofBytes (saturate v.y, saturate v.x) = v.clamped := by
  rw [Vertex.ofBytes, toNat_saturate, toNat_saturate, Vertex.clamped]

theorem saturate_natCast (byte : UInt8) : saturate byte.toNat = byte := by
  have := byte.toNat_lt
  rw [saturate, Int.toNat_natCast, Nat.min_eq_left (by omega), UInt8.ofNat_toNat]

def pairs (p : Polygon) : List (UInt8 × UInt8) :=
  (p.vertices.take maxRecorded).map fun v => (saturate v.y, saturate v.x)

variable {data : Bytes} {offset stop : Nat} {p : Polygon}

theorem length_pairs_le (p : Polygon) : p.pairs.length ≤ maxRecorded := by
  rw [pairs, List.length_map]
  exact List.length_take_le ..

theorem record_eq (p : Polygon) :
    p.record = UInt8.ofNat p.pairs.length :: p.pairs.flatMap fun (y, x) => [y, x] := by
  rw [record, pairs, List.length_map, List.flatMap_map]

theorem length_record (p : Polygon) : p.record.length = 1 + 2 * p.pairs.length := by
  rw [record_eq, List.length_cons, length_flatMap_pairs, Nat.add_comm]

theorem map_ofBytes_pairs (p : Polygon) :
    p.pairs.map Vertex.ofBytes = (p.vertices.take maxRecorded).map Vertex.clamped := by
  rw [pairs, List.map_map]
  exact List.map_congr_left fun v _ => ofBytes_saturate v

theorem read_record (h : data.Holds offset p.record) :
    read data offset =
      .ok (⟨(p.vertices.take maxRecorded).map Vertex.clamped⟩, offset + p.record.length) := by
  rw [length_record, ← Nat.add_assoc, ← map_ofBytes_pairs]
  exact read_of_holds p.length_pairs_le (p.record_eq ▸ h)

/-- Whether a record can hold a polygon as it is. -/
structure FitsRecord (p : Polygon) : Prop where
  size_le : p.size ≤ maxRecorded
  inBytes : ∀ v ∈ p.vertices, v.InBytes

theorem clamped_eq_iff :
    (⟨(p.vertices.take maxRecorded).map Vertex.clamped⟩ : Polygon) = p ↔ p.FitsRecord := by
  constructor
  · intro h
    have hvertices := congrArg vertices h
    dsimp only at hvertices
    have hsize : p.size ≤ maxRecorded := by
      rw [size, ← hvertices, List.length_map]
      exact List.length_take_le ..
    rw [List.take_of_length_le hsize] at hvertices
    have hkept : ∀ v ∈ p.vertices, v.clamped = v :=
      List.map_inj_left.mp (hvertices.trans (List.map_id' _).symm)
    exact ⟨hsize, fun v hv => Vertex.clamped_eq_iff.mp (hkept v hv)⟩
  · intro h
    have hkept : p.vertices.take maxRecorded = p.vertices := List.take_of_length_le h.size_le
    rw [hkept, List.map_congr_left fun v hv => Vertex.clamped_eq_iff.mpr (h.inBytes v hv),
      List.map_id']

theorem FitsRecord.read_record (h : p.FitsRecord) (hdata : data.Holds offset p.record) :
    read data offset = .ok (p, offset + p.record.length) := by
  rw [Polygon.read_record hdata, clamped_eq_iff.mpr h]

theorem fitsRecord_of_read (h : read data offset = .ok (p, stop)) : p.FitsRecord := by
  obtain ⟨count, part, -, hpart, rfl, -⟩ := read_eq_ok_iff.mp h
  constructor
  · rw [size_of_slice? hpart]
    exact Nat.le_of_lt_succ count.toNat_lt
  · intro v hv
    obtain ⟨pair, -, rfl⟩ := List.mem_map.mp hv
    exact Vertex.inBytes_ofBytes pair

theorem holds_of_read (h : read data offset = .ok (p, stop)) :
    data.Holds offset p.record ∧ stop = offset + p.record.length := by
  obtain ⟨count, part, hcount, hpart, rfl, rfl⟩ := read_eq_ok_iff.mp h
  have hlength : part.toList.length = 2 * count.toNat := Bytes.size_of_slice? hpart
  -- bytes come back from the coordinates they are read as
  have hpairs : pairs ⟨(bytePairs part.toList).map Vertex.ofBytes⟩ = bytePairs part.toList := by
    have hsize : (bytePairs part.toList).length ≤ maxRecorded := by
      have := count.toNat_lt
      rw [length_bytePairs, hlength, maxRecorded]
      omega
    rw [pairs, List.take_of_length_le (by rwa [List.length_map]), List.map_map]
    exact (List.map_congr_left fun pair _ => by
      simp [Vertex.ofBytes, saturate_natCast]).trans (List.map_id _)
  have hrecord : record ⟨(bytePairs part.toList).map Vertex.ofBytes⟩ = count :: part.toList := by
    rw [record_eq, hpairs, length_bytePairs, hlength, Nat.mul_div_cancel_left _ (by decide),
      UInt8.ofNat_toNat, flatMap_bytePairs (by omega)]
  rw [hrecord, List.length_cons, hlength]
  exact ⟨.cons hcount (Bytes.holds_of_slice? hpart), by omega⟩

theorem read_eq_ok_iff_holds : read data offset = .ok (p, stop) ↔
    p.FitsRecord ∧ data.Holds offset p.record ∧ stop = offset + p.record.length := by
  constructor
  · exact fun h => ⟨fitsRecord_of_read h, holds_of_read h⟩
  · rintro ⟨hfits, hdata, rfl⟩
    exact hfits.read_record hdata

/-- From its record a polygon is read back, wherever that stands, up to the first 255 vertices
and with every coordinate brought into the range of a byte. So it comes back as it was exactly
if it has no more vertices and all of them are in that range. Whatever is read from any bytes,
its record is the bytes that it is read from. -/
theorem record_reads_back_up_to_saturation (p : Polygon) (front back : List UInt8) :
    let stream : Bytes := (front ++ p.record ++ back).toArray
    read stream front.length =
      .ok (⟨(p.vertices.take (min p.size 255)).map Vertex.clamped⟩,
        front.length + p.record.length) ∧
    ((∃ stop, read stream front.length = .ok (p, stop)) ↔
      p.size ≤ 255 ∧ ∀ v ∈ p.vertices, 0 ≤ v.y ∧ v.y ≤ 255 ∧ 0 ≤ v.x ∧ v.x ≤ 255) ∧
    ∀ (data : Bytes) (offset : Nat) (shape : Polygon) (stop : Nat),
      read data offset = .ok (shape, stop) →
        offset ≤ stop ∧ stop ≤ data.size ∧ (data.extract offset stop).toList = shape.record := by
  intro stream
  have hstream : stream.Holds front.length p.record := Bytes.holds_append front p.record back
  refine ⟨?saturated, ?itself, fun data offset shape stop hread => ?bytes⟩
  case saturated =>
    rw [read_record hstream, maxRecorded, size, Nat.min_comm, ← List.take_eq_take_min]
  case itself =>
    constructor
    · rintro ⟨stop, hread⟩
      obtain ⟨⟨hsize, hvertices⟩, -⟩ := read_eq_ok_iff_holds.mp hread
      exact ⟨hsize, hvertices⟩
    · rintro ⟨hsize, hvertices⟩
      exact ⟨_, read_eq_ok_iff_holds.mpr ⟨⟨hsize, hvertices⟩, hstream, rfl⟩⟩
  case bytes =>
    obtain ⟨-, hdata, rfl⟩ := read_eq_ok_iff_holds.mp hread
    obtain ⟨hle, hextract⟩ := Bytes.slice?_eq_some_iff.mp hdata.slice?
    exact ⟨Nat.le_add_right .., hle, congrArg Array.toList hextract.symm⟩

/-- A polygon left of the plane and below it, and the triangle that comes back. -/
theorem record_reads_back_clipped_triangle :
    let p : Polygon := ⟨[⟨-4, 300⟩, ⟨255, 0⟩, ⟨1000, 7⟩]⟩
    let triangle : Polygon := ⟨[⟨0, 255⟩, ⟨255, 0⟩, ⟨255, 7⟩]⟩
    let stream : Bytes := #[0xD2, 3, 0, 255, 255, 0, 255, 7, 9]
    read stream 1 = .ok (triangle, 8) ∧ ¬(∃ stop, read stream 1 = .ok (p, stop)) ∧
      (stream.extract 1 8).toList = triangle.record := by
  intro p triangle stream
  obtain ⟨hread, hitself, hbytes⟩ := record_reads_back_up_to_saturation p [0xD2] [9]
  have hsmall : ¬∀ v ∈ p.vertices, 0 ≤ v.y ∧ v.y ≤ 255 ∧ 0 ≤ v.x ∧ v.x ≤ 255 := by decide
  exact ⟨hread, fun h => hsmall (hitself.mp h).2, (hbytes _ _ _ _ hread).2.2⟩

end Polygon

end Bitplane
