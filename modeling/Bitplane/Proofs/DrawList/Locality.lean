import Bitplane.Proofs.DrawList.Runs

/-! # The bytes that a decoder reads

A draw list that decodes completely is read from its own bytes alone: what stands around
it does not matter, and no part of it can be missing unnoticed.
-/

namespace Bitplane

variable {revision : Revision} {data data' : Bytes} {count offset stop m i : Nat}

/-! ## Streams cut short -/

namespace Bytes

theorem getElem?_cut (h : i < m) : (data.extract 0 m)[i]? = data[i]? := by
  rw [Array.getElem?_extract, Nat.zero_add]
  split
  · rfl
  · exact (Array.getElem?_eq_none (by omega)).symm

theorem getElem?_cut_of_le (h : m ≤ i) : (data.extract 0 m)[i]? = none := by
  rw [Array.getElem?_extract, if_neg (by omega)]

theorem slice?_cut {start len : Nat} (h : m < start + len) :
    Bytes.slice? (data.extract 0 m) start len = none := by
  rw [slice?_eq_none_iff, Array.size_extract]
  omega

end Bytes

theorem Polygon.read_cut {shape : Polygon} (h : Polygon.read data offset = .ok (shape, stop))
    (hm : m < stop) : ∃ missing needed,
      Polygon.read (data.extract 0 m) offset = .error (.unexpectedEnd missing needed) := by
  obtain ⟨count, part, hcount, -, -, rfl⟩ := Polygon.read_eq_ok_iff.mp h
  unfold Polygon.read
  rcases Nat.lt_or_ge offset m with hlt | hge
  · rw [Bytes.getElem?_cut hlt, hcount]
    dsimp only
    rw [Bytes.slice?_cut hm]
    exact ⟨_, _, rfl⟩
  · rw [Bytes.getElem?_cut_of_le hge]
    exact ⟨_, _, rfl⟩

namespace DrawOp

variable {op : DrawOp} {items : List (DrawOp × Nat)} {result : Except FrameFault Nat}

theorem readSkip_cut {bytes : Nat} (command : UInt8) (hm : m < offset + 1 + bytes) :
    ∃ missing needed at', readSkip (data.extract 0 m) offset command bytes =
      (.error (.unexpectedEnd missing needed), at') := by
  unfold readSkip
  rw [Bytes.slice?_cut hm]
  exact ⟨_, _, _, rfl⟩

theorem Reads.cut (h : Reads revision data offset op stop) (hm : m < stop) :
    ∃ missing needed position, read revision (data.extract 0 m) offset =
      (.error (.unexpectedEnd missing needed), position) := by
  unfold read
  rcases Nat.lt_or_ge offset m with hlt | hge
  · rw [Bytes.getElem?_cut hlt]
    cases h with
    | polygon hbyte hclass hshape =>
      obtain ⟨missing, needed, hread⟩ := Polygon.read_cut hshape hm
      simp only [hbyte, hclass, hread]
      exact ⟨_, _, _, rfl⟩
    | tween hbyte hclass _ _ =>
      simp only [hbyte, hclass, Bytes.slice?_cut hm]
      exact ⟨_, _, _, rfl⟩
    | ignored hbyte hclass _ =>
      simp only [hbyte, hclass]
      exact readSkip_cut _ hm
    | unknown hbyte hclass hunknown _ =>
      simp only [hbyte, hclass, hunknown]
      exact readSkip_cut _ hm
  · rw [Bytes.getElem?_cut_of_le hge]
    exact ⟨_, _, _, rfl⟩

/-! ## The same bytes in another stream -/

theorem Reads.congr (h : Reads revision data offset op stop) (hle : stop ≤ data'.size)
    (hsame : ∀ i, offset ≤ i → i < stop → data'[i]? = data[i]?) :
    Reads revision data' offset op stop := by
  have hcommand := hsame offset (Nat.le_refl _) h.lt
  cases h with
  | polygon hbyte hclass hshape =>
    obtain ⟨count, part, hcount, hpart, hvertices, rfl⟩ := Polygon.read_eq_ok_iff.mp hshape
    have hcount' := hsame (offset + 1) (by omega) (by omega)
    refine .polygon (hcommand.trans hbyte) hclass (Polygon.read_eq_ok_iff.mpr
      ⟨count, part, hcount'.trans hcount, ?_, hvertices, rfl⟩)
    exact Bytes.slice?_congr hpart hle fun i hi hlt => hsame i (by omega) hlt
  | tween hbyte hclass hslice href =>
    refine .tween (hcommand.trans hbyte) hclass ?_ href
    exact Bytes.slice?_congr hslice hle fun i hi hlt => hsame i (by omega) hlt
  | ignored hbyte hclass _ => exact .ignored (hcommand.trans hbyte) hclass hle
  | unknown hbyte hclass hunknown _ => exact .unknown (hcommand.trans hbyte) hclass hunknown hle

theorem ReadsAll.congr (h : ReadsAll revision data count offset items (.ok stop))
    (hle : stop ≤ data'.size) (hsame : ∀ i, offset ≤ i → i < stop → data'[i]? = data[i]?) :
    ReadsAll revision data' count offset items (.ok stop) := by
  induction h using induction_complete with
  | done => exact .done
  | @next _ offset mid _ _ hread hrest ih =>
    have hlt := hread.lt
    have hmid := hrest.le
    refine .next (hread.congr (by omega) fun i hi hlt => hsame i hi (by omega)) ?_
    exact ih fun i hi hlt => hsame i (by omega) hlt

/-- Of commands that are cut short, those that are still there are read, and then the stream
ends too early. -/
theorem ReadsAll.cut (h : ReadsAll revision data count offset items (.ok stop)) (hm : m < stop)
    (hoffset : offset ≤ m) : ∃ kept missing needed, kept <+: items ∧
      ReadsAll revision (data.extract 0 m) count offset kept
        (.error (.unexpectedEnd missing needed)) := by
  induction h using induction_complete with
  | done => omega
  | @next _ offset mid op rest hread _ ih =>
    rcases Nat.lt_or_ge m mid with hlt | hge
    · obtain ⟨missing, needed, position, hcut⟩ := hread.cut hlt
      exact ⟨[], missing, needed, List.nil_prefix, .stopped hcut⟩
    · obtain ⟨kept, missing, needed, hkept, hrest⟩ := ih hge
      obtain ⟨-, -, -, hsize⟩ := hread.extent
      have hhere : Reads revision (data.extract 0 m) offset op mid := by
        refine hread.congr ?_ fun i _ hi => Bytes.getElem?_cut (by omega)
        rw [Array.size_extract]
        omega
      exact ⟨(op, mid) :: kept, missing, needed, (List.prefix_cons_inj _).mpr hkept,
        .next hhere hrest⟩

end DrawOp

/-- A decoder that finishes has looked at nothing but the bytes of its draw list: it gives the
same for every stream that has them there. Where the stream ends within the list, it gives
operations of the list, then one fault, that the stream ends too early, and then nothing. -/
theorem decoder_reads_own_bytes (revision : Revision) (data : Bytes) (start : Nat) {stop : Nat}
    (hend : (Decoder.ofStart revision data start).exhausted.endOffset? = some stop) :
    let d := Decoder.ofStart revision data start
    (∀ data' : Bytes, stop ≤ data'.size →
      (∀ i, start ≤ i → i < stop → data'[i]? = data[i]?) →
      let d' := Decoder.ofStart revision data' start
      d'.outcomes = d.outcomes ∧ d'.exhausted.drawCount = d.exhausted.drawCount ∧
        d'.exhausted.endOffset? = some stop) ∧
    ∀ m, start ≤ m → m < stop →
      let d' := Decoder.ofStart revision (data.extract 0 m) start
      ∃ ops missing needed, ops <+: d.ops ∧
        d'.outcomes = ops.map .ok ++ [.error (.unexpectedEnd missing needed)] ∧
        d'.exhausted.next = (none, d'.exhausted) := by
  intro d
  obtain ⟨count, items, hcount, hall⟩ := Decoder.readsAll_of_endOffset? hend
  have hgives := Decoder.gives_of_readsList (.opened hcount hall)
  obtain ⟨hbyte, hmost⟩ := readDrawCount_eq_ok_iff.mp hcount
  have hle := hall.le
  refine ⟨fun data' hsize hsame => ?_, fun m hstart hm => ?_⟩
  · have hcount' : readDrawCount revision data' start = .ok count :=
      readDrawCount_eq_ok_iff.mpr ⟨(hsame start (Nat.le_refl _) (by omega)).trans hbyte, hmost⟩
    have hall' := hall.congr hsize fun i hi hlt => hsame i (by omega) hlt
    have hgives' := Decoder.gives_of_readsList (.opened hcount' hall')
    refine ⟨?_, ?_, hgives'.endOffset?⟩
    · rw [hgives'.outcomes, hgives.outcomes]
    · rw [hgives'.drawCount, hgives.drawCount]
  · rcases Nat.eq_or_lt_of_le hstart with rfl | hlt
    · have hmissing : readDrawCount revision (data.extract 0 start) start =
          .error (.unexpectedEnd start 1) := by
        rw [readDrawCount, Bytes.getElem?_cut_of_le (Nat.le_refl _)]
      have hgives' := Decoder.gives_of_readsList (.refused hmissing)
      exact ⟨[], start, 1, List.nil_prefix, hgives'.outcomes, hgives'.next⟩
    · have hcount' : readDrawCount revision (data.extract 0 m) start = .ok count :=
        readDrawCount_eq_ok_iff.mpr ⟨(Bytes.getElem?_cut hlt).trans hbyte, hmost⟩
      obtain ⟨kept, missing, needed, hkept, hall'⟩ := hall.cut hm hlt
      have hgives' := Decoder.gives_of_readsList (.opened hcount' hall')
      refine ⟨kept.map Prod.fst, missing, needed, ?_, ?_, hgives'.next⟩
      · rw [hgives.ops]
        exact hkept.map Prod.fst
      · rw [hgives'.outcomes, List.map_map]
        rfl

/-- An empty shape and a tween. Other bytes around them make no difference; a cut through
the tween leaves the shape in front. -/
theorem decoder_reads_own_bytes_shape_and_tween :
    let data : Bytes := #[7, 2, 0xD7, 0, 0xE8, 0, 2, 0, 0, 1, 2]
    let d := Decoder.ofStart .fourPlane data 1
    d.exhausted.endOffset? = some 11 ∧ d.ops.length = 2 ∧
      (Decoder.ofStart .fourPlane #[9, 2, 0xD7, 0, 0xE8, 0, 2, 0, 0, 1, 2, 0xD2] 1).outcomes =
        d.outcomes ∧
      ∃ missing needed, (Decoder.ofStart .fourPlane (data.extract 0 7) 1).outcomes =
        (d.ops.take 1).map .ok ++ [.error (.unexpectedEnd missing needed)] := by
  intro data d
  have hend : d.exhausted.endOffset? = some 11 := by decide +kernel
  have hsame : ∀ i < 11, 1 ≤ i →
      (#[9, 2, 0xD7, 0, 0xE8, 0, 2, 0, 0, 1, 2, 0xD2] : Bytes)[i]? = data[i]? := by decide
  obtain ⟨hother, hcut⟩ := decoder_reads_own_bytes .fourPlane data 1 hend
  obtain ⟨houtcomes, -⟩ := hother _ (by decide) fun i hi hlt => hsame i hlt hi
  obtain ⟨ops, missing, needed, hops, hgives, -⟩ := hcut 7 (by decide) (by decide)
  have htwo : (Decoder.ofStart .fourPlane (data.extract 0 7) 1).outcomes.length = 2 := by
    decide +kernel
  have hone : ops.length = 1 := by
    rw [hgives, List.length_append, List.length_map] at htwo
    exact Nat.add_right_cancel htwo
  rw [List.prefix_iff_eq_take.mp hops, hone] at hgives
  exact ⟨hend, by decide +kernel, houtcomes, missing, needed, hgives⟩

end Bitplane
