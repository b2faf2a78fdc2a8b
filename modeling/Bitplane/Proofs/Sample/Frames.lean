import Bitplane.Proofs.DrawList.Written
import Bitplane.Proofs.Renderer.Inspection
import Bitplane.Proofs.Renderer.Refusal
import Bitplane.Proofs.Sample.Layout
import Bitplane.Proofs.Tween.Record

/-! # The frames of sample scripts

A frame of a sample is a written draw list: its stars in one plane of four after another,
then a tween from the first record of the stream to the last. All of it draws. That the
deltas have only two bytes is no loss in a stream that has at most 65535.
-/

namespace Bitplane

open DrawCommand (Means MeansAll)
open DrawOp (ReadsList)

namespace Sample

variable {frames polygons vertices frame : Nat}

/-- The sizes of samples that there are, and whose vertices can be counted in a byte. -/
structure Fits (frames polygons vertices : Nat) : Prop where
  polygons_le : polygons ≤ maxPolygons
  size_le : streamSize polygons vertices frames ≤ maxSize
  vertices_le : vertices ≤ Polygon.maxRecorded

/-! ## Commands -/

def starDraw (vertices frame polygon : Nat) : DrawCommand :=
  .polygon (starCommand polygon) (starOf frame vertices polygon)

def starOp (vertices frame offset polygon : Nat) : DrawOp :=
  .polygon (offset + polygon * recordSize vertices) (starCommand polygon)
    (UInt8.ofNat (polygon % 4)) ⟨(starOf frame vertices polygon).map Vertex.ofBytes⟩

def frameCommands (frames polygons vertices frame : Nat) : List DrawCommand :=
  (List.range polygons).map (starDraw vertices frame) ++
    [.tween tweenCommand (UInt16.ofNat (slot polygons vertices frame))
      (UInt16.ofNat (delta polygons vertices frames frame))
      (UInt8.ofNat (frame % tweenLength)) (UInt8.ofNat tweenLength)]

def frameOps (frames polygons vertices frame : Nat) : List DrawOp :=
  (List.range polygons).map
      (starOp vertices frame (frameOffset polygons vertices frame + 1)) ++
    [.tween (frameOffset polygons vertices frame + 1 + polygons * recordSize vertices)
      tweenCommand 2 ⟨0, frameOffset polygons vertices frames,
        UInt8.ofNat (frame % tweenLength), UInt8.ofNat tweenLength⟩]

theorem flatMap_bytes_starDraw (frame polygons vertices : Nat) :
    ((List.range polygons).map (starDraw vertices frame)).flatMap DrawCommand.bytes =
      stars frame polygons vertices := by
  rw [List.flatMap_map]
  rfl

theorem means_starDraw (hvertices : vertices ≤ Polygon.maxRecorded) (offset polygon : Nat) :
    Means .fourPlane (offset + polygon * recordSize vertices) (starDraw vertices frame polygon)
      (starOp vertices frame offset polygon) := by
  have hlt : polygon % 4 < 4 := Nat.mod_lt _ (by decide)
  -- the first star command is the third polygon command of the revision
  have hplane : ∀ i < 4, Revision.fourPlane.planeMap[2 + i]? = some (UInt8.ofNat i) := by decide
  have hcommand : ∀ i < 4, (0xD2 + UInt8.ofNat i).toNat =
      Revision.fourPlane.polygonBase.toNat + (2 + i) := by decide
  refine .polygon (hplane _ hlt) (hcommand _ hlt) ?_
  rw [starOf, length_star]
  exact hvertices

theorem meansAll_stars (hvertices : vertices ≤ Polygon.maxRecorded) (offset polygons : Nat) :
    MeansAll .fourPlane offset ((List.range polygons).map (starDraw vertices frame))
      ((List.range polygons).map (starOp vertices frame offset)) := by
  induction polygons with
  | zero => exact .nil
  | succ polygons ih =>
    rw [List.range_succ, List.map_append, List.map_append]
    refine ih.append (.cons ?_ .nil)
    rw [flatMap_bytes_starDraw, length_stars]
    exact means_starDraw hvertices offset polygons

theorem means_tween {offset place target : Nat} (t tMax : UInt8) (hplace : offset + 1 = place)
    (hback : place < UInt16.size) (htarget : place ≤ target)
    (hforward : target - place < UInt16.size) :
    Means .fourPlane offset
      (.tween tweenCommand (UInt16.ofNat place) (UInt16.ofNat (target - place)) t tMax)
      (.tween offset tweenCommand 2 ⟨0, target, t, tMax⟩) := by
  have htween : (⟨tweenCommand, 2⟩ : TweenCommand) ∈ Revision.fourPlane.tweens := by decide
  have hle : (UInt16.ofNat place).toNat ≤ offset + 1 := by
    rw [UInt16.toNat_ofNat_of_lt' hback, hplace]
  have hmeans := @Means.tween _ _ _ _ (UInt16.ofNat (target - place)) t tMax htween hle
  rw [hplace, UInt16.toNat_ofNat_of_lt' hback, UInt16.toNat_ofNat_of_lt' hforward, Nat.sub_self,
    Nat.add_sub_cancel' htarget] at hmeans
  exact hmeans

namespace Fits

variable (h : Fits frames polygons vertices)
include h

theorem target_lt : frameOffset polygons vertices frames < UInt16.size := by
  have hsize : streamSize polygons vertices frames < UInt16.size := Nat.lt_succ_of_le h.size_le
  rw [streamSize] at hsize
  omega

theorem delta_lt (frame : Nat) : delta polygons vertices frames frame < UInt16.size :=
  Nat.lt_of_le_of_lt (Nat.sub_le ..) h.target_lt

variable (hframe : frame < frames)
include hframe

theorem slot_lt : slot polygons vertices frame < UInt16.size :=
  Nat.lt_trans (Sample.slot_lt polygons vertices hframe) h.target_lt

theorem drawListBytes_frameCommands :
    drawListBytes (frameCommands frames polygons vertices frame) =
      frameBytes polygons vertices (delta polygons vertices frames frame) frame := by
  have hcount : UInt8.ofNat (polygons + 1) = UInt8.ofNat polygons + 1 := UInt8.ofNat_add ..
  rw [drawListBytes, frameCommands, List.flatMap_append, flatMap_bytes_starDraw,
    List.length_append, List.length_map, List.length_range, List.length_singleton, hcount]
  simp only [List.flatMap_cons, List.flatMap_nil, DrawCommand.bytes,
    UInt16.toNat_ofNat_of_lt' (h.slot_lt hframe), UInt16.toNat_ofNat_of_lt' (h.delta_lt frame),
    frameBytes, frameFront, List.append_nil, List.append_assoc, List.cons_append]

theorem meansAll_frameCommands :
    MeansAll .fourPlane (frameOffset polygons vertices frame + 1)
      (frameCommands frames polygons vertices frame) (frameOps frames polygons vertices frame) := by
  refine (meansAll_stars h.vertices_le _ polygons).append (.cons ?_ .nil)
  rw [flatMap_bytes_starDraw, length_stars]
  refine means_tween _ _ ?_ (h.slot_lt hframe)
    (Nat.le_of_lt (Sample.slot_lt polygons vertices hframe)) (h.delta_lt frame)
  rw [slot]
  omega

/-- The decoder reads a frame as its commands, and finishes where the next one starts. -/
theorem readsList :
    ∃ count items, items.map Prod.fst = frameOps frames polygons vertices frame ∧
      ReadsList .fourPlane (stream polygons vertices frames).toArray
        (frameOffset polygons vertices frame) count items
        (.ok (frameOffset polygons vertices (frame + 1))) := by
  have hpolygons : polygons ≤ 254 := h.polygons_le
  have hconsistent := Revision.validate_eq_ok_iff.mp Revision.validate_fourPlane
  have hbytes := h.drawListBytes_frameCommands hframe
  have hlength : (frameCommands frames polygons vertices frame).length ≤ 255 := by
    rw [frameCommands, List.length_append, List.length_map, List.length_range,
      List.length_singleton]
    omega
  have hread := (h.meansAll_frameCommands hframe).readsList hconsistent rfl hlength
    (hbytes ▸ holds_frame hframe)
  rw [hbytes, length_frameBytes, ← frameOffset_succ] at hread
  exact hread

end Fits

/-! ## Drawing -/

theorem resolve_of_holds {data : Bytes} {offset : Nat} {points : List (UInt8 × UInt8)}
    (hpoints : points.length ≤ Polygon.maxRecorded)
    (h : data.Holds offset (polygonCommand 0xD2 points)) :
    Tween.resolve .fourPlane data offset = .ok ⟨points.map Vertex.ofBytes⟩ := by
  have hclass : Revision.fourPlane.classify 0xD2 = .polygon 0 := by decide +kernel
  exact (Tween.Resolution.record h.head hclass (Polygon.read_of_holds hpoints h.tail)).eq

theorem Fits.exists_polygon (h : Fits frames polygons vertices) (t : UInt8) :
    ∃ shape, Tween.polygon .fourPlane (stream polygons vertices frames).toArray
      ⟨0, frameOffset polygons vertices frames, t, UInt8.ofNat tweenLength⟩ = .ok shape := by
  have hle : ∀ radius centerY centerX phase,
      (star vertices radius centerY centerX phase).length ≤ Polygon.maxRecorded := by
    intro radius centerY centerX phase
    rw [length_star]
    exact h.vertices_le
  have hsource := resolve_of_holds (hle ..) (holds_source frames polygons vertices)
  have htarget := resolve_of_holds (hle ..) (holds_target frames polygons vertices)
  have hlength : UInt8.ofNat tweenLength ≠ 0 := by decide
  refine ⟨_, Tween.polygon_of_resolve hlength hsource htarget ?_⟩
  rw [Polygon.size, Polygon.size, List.length_map, List.length_map, length_star, length_star]

theorem Fits.isSome_shape? (h : Fits frames polygons vertices) {op : DrawOp}
    (hop : op ∈ frameOps frames polygons vertices frame) :
    (op.shape? .fourPlane (stream polygons vertices frames).toArray).isSome := by
  rw [frameOps, List.mem_append, List.mem_map, List.mem_singleton] at hop
  rcases hop with ⟨polygon, -, rfl⟩ | rfl
  · rfl
  · obtain ⟨shape, hshape⟩ := h.exists_polygon (UInt8.ofNat (frame % tweenLength))
    rw [DrawOp.shape?, hshape]
    rfl

/-- The operations of a frame in order: a polygon for each star, into the planes in turn,
then a tween into plane 2 from the start of the stream to `target`. -/
structure InOrder (polygons vertices target frame : Nat) (ops : List DrawOp) : Prop where
  length_eq : ops.length = polygons + 1
  star : ∀ i < polygons, ∃ offset shape,
    ops[i]? = some (.polygon offset (starCommand i) (UInt8.ofNat (i % 4)) shape) ∧
      shape.size = vertices ∧ shape.vertices = (starOf frame vertices i).map Vertex.ofBytes
  tween : ∃ offset, ops[polygons]? =
    some (.tween offset tweenCommand 2 ⟨0, target, UInt8.ofNat (frame % 16), 16⟩)

theorem inOrder_frameOps (frames polygons vertices frame : Nat) :
    InOrder polygons vertices (frameOffset polygons vertices frames) frame
      (frameOps frames polygons vertices frame) where
  length_eq := by
    rw [frameOps, List.length_append, List.length_map, List.length_range, List.length_singleton]
  star i hi := by
    have hop : (frameOps frames polygons vertices frame)[i]? =
        some (starOp vertices frame (frameOffset polygons vertices frame + 1) i) := by
      rw [frameOps, List.getElem?_append_left (by simpa using hi), List.getElem?_map,
        List.getElem?_range hi]
      rfl
    refine ⟨_, _, hop, ?_, rfl⟩
    rw [Polygon.size, List.length_map, starOf, length_star]
  tween := by
    have hlength : ((List.range polygons).map
        (starOp vertices frame (frameOffset polygons vertices frame + 1))).length = polygons := by
      rw [List.length_map, List.length_range]
    exact ⟨_, by rw [frameOps, List.getElem?_append_right (by omega), hlength, Nat.sub_self]; rfl⟩

end Sample

/-- A renderer for a script that has all planes of the four-plane revision. -/
structure Renderer.ShowsFourPlane (s : Script) (r : Renderer) : Prop where
  script_eq : r.script = s
  revision_eq : r.revision = .fourPlane
  size_planes : r.planes.size = 4

theorem Renderer.exists_ofScript (s : Script) (width height : Nat) :
    ∃ r, ofScript s .fourPlane width height = .ok r ∧ r.ShowsFourPlane s := by
  rw [ofScript, Revision.validate_fourPlane]
  exact ⟨_, rfl, rfl, rfl, Array.size_ofFn⟩

namespace Sample

structure IsScript (frames polygons vertices : Nat) (s : Script) : Prop where
  offsets_eq : s.offsets = offsets polygons vertices frames
  data_eq : s.data = (stream polygons vertices frames).toArray

variable {frames polygons vertices frame : Nat} {s : Script} {r : Renderer}

theorem IsScript.frameOffset_eq (hs : IsScript frames polygons vertices s)
    (hframe : frame < frames) :
    s.frameOffset frame = .ok (frameOffset polygons vertices frame) := by
  rw [Script.frameOffset, hs.offsets_eq, getElem?_offsets hframe]

namespace Fits

variable (h : Fits frames polygons vertices) (hs : IsScript frames polygons vertices s)
  (hframe : frame < frames)
include h hs hframe

theorem decodeFrame :
    ∃ decoded, s.decodeFrame .fourPlane frame = .ok decoded ∧
      decoded.result = .ok (frameOps frames polygons vertices frame,
        frameOffset polygons vertices (frame + 1)) := by
  obtain ⟨count, items, hops, hlist⟩ := h.readsList hframe
  rw [← hs.data_eq] at hlist
  rw [← hops]
  exact Script.decodeFrame_of_readsList (hs.frameOffset_eq hframe) hlist

theorem render (hr : r.ShowsFourPlane s) :
    ∃ report, (r.render frame).result = .ok report ∧ report.isClean ∧
      report.drawn = polygons + 1 ∧ (r.render frame).renderer.ShowsFourPlane s := by
  have hconsistent : r.revision.Consistent := by
    rw [hr.revision_eq]
    exact Revision.validate_eq_ok_iff.mp Revision.validate_fourPlane
  have hplanes : r.revision.planeCount ≤ r.planes.size := by
    rw [hr.revision_eq, hr.size_planes]
    exact Nat.le_refl 4
  have hoffset : r.script.frameOffset frame = .ok (frameOffset polygons vertices frame) := by
    rw [hr.script_eq]
    exact hs.frameOffset_eq hframe
  obtain ⟨count, items, hops, hlist⟩ := h.readsList hframe
  rw [← hs.data_eq, ← hr.script_eq, ← hr.revision_eq] at hlist
  have hdraws : ∀ op ∈ items.map Prod.fst, (op.shape? r.revision r.script.data).isSome := by
    rw [hops, hr.revision_eq, hr.script_eq, hs.data_eq]
    exact fun op hop => h.isSome_shape? hop
  obtain ⟨report, hreport, hclean, hdrawn, hsize⟩ :=
    Renderer.draw_isClean hconsistent hplanes hoffset hlist hdraws
  obtain ⟨hresult, hkept⟩ := r.render_eq_draw frame
  obtain ⟨hscript, hrevision⟩ := (Renderer.answers_render hconsistent frame).source_kept
  refine ⟨report, hresult.trans hreport, hclean, ?_, hscript.trans hr.script_eq,
    hrevision.trans hr.revision_eq, ?_⟩
  · rw [hdrawn, ← List.length_map Prod.fst, hops]
    exact (inOrder_frameOps frames polygons vertices frame).length_eq
  · rw [hkept, hsize, hr.size_planes]

end Fits

end Sample

/-- There is a sample of every size up to 254 polygons a frame and 65535 bytes. If its vertices
can be counted in a byte, the parts make a script, with the records of its tweens in front and
behind. Every frame decodes to its polygons, which go into the planes in turn, and one tween
between these two records, and ends where the next frame or the last record starts. However a
renderer stands, it draws every frame cleanly, with all of its operations. -/
theorem sample_scripts_draw_cleanly (frames polygons vertices : Nat) :
    ((∃ sample, sampleScript frames polygons vertices = .ok sample) ↔
      polygons < 255 ∧ Sample.streamSize polygons vertices frames ≤ 65535) ∧
    ∀ offsets data, sampleScript frames polygons vertices = .ok (offsets, data) →
      vertices ≤ 255 →
      offsets.size = frames ∧
      ∃ target, data.Holds 0 (Sample.source vertices) ∧
        data.Holds target (Sample.target vertices) ∧
        target + (Sample.target vertices).length = data.size ∧
        ∃ s, Script.ofParts offsets data = .ok s ∧
          (∀ width height, ∃ r, Renderer.ofScript s .fourPlane width height = .ok r ∧
            r.ShowsFourPlane s) ∧
          ∀ frame < frames,
            (∃ decoded ops, s.decodeFrame .fourPlane frame = .ok decoded ∧
              decoded.result = .ok (ops, offsets.getD (frame + 1) target) ∧
              Sample.InOrder polygons vertices target frame ops) ∧
            ∀ r : Renderer, r.ShowsFourPlane s →
              ∃ report, (r.render frame).result = .ok report ∧ report.isClean ∧
                report.drawn = polygons + 1 ∧ (r.render frame).renderer.ShowsFourPlane s := by
  refine ⟨?_, fun offsets data hsample hvertices => ?_⟩
  · constructor
    · rintro ⟨⟨offsets, data⟩, hsample⟩
      obtain ⟨hpolygons, hsize, -, -⟩ := Sample.sampleScript_eq_ok_iff.mp hsample
      exact ⟨Nat.lt_succ_of_le hpolygons, hsize⟩
    · rintro ⟨hpolygons, hsize⟩
      exact ⟨_, Sample.sampleScript_eq_ok_iff.mpr ⟨Nat.le_of_lt_succ hpolygons, hsize, rfl, rfl⟩⟩
  · obtain ⟨hpolygons, hsize, rfl, rfl⟩ := Sample.sampleScript_eq_ok_iff.mp hsample
    have hfits : Sample.Fits frames polygons vertices := ⟨hpolygons, hsize, hvertices⟩
    have hdata : (Sample.stream polygons vertices frames).toArray.size =
        Sample.streamSize polygons vertices frames := Sample.length_stream ..
    have hinside : ∀ o ∈ Sample.offsets polygons vertices frames,
        o < (Sample.stream polygons vertices frames).toArray.size := by
      rw [hdata]
      exact fun o ho => Sample.lt_of_mem_offsets ho
    have hscript : Sample.IsScript frames polygons vertices ⟨_, _, hinside⟩ := ⟨rfl, rfl⟩
    refine ⟨Sample.size_offsets frames, Sample.frameOffset polygons vertices frames,
      Sample.holds_source .., Sample.holds_target .., ?_, _, Script.ofParts_of_lt hinside,
      Renderer.exists_ofScript _, fun frame hframe => ⟨?_, fun r hr => ?_⟩⟩
    · rw [Sample.length_target, hdata, Sample.streamSize]
    · obtain ⟨decoded, hdecoded, hresult⟩ := hfits.decodeFrame hscript hframe
      rw [Sample.getD_offsets hframe]
      exact ⟨decoded, _, hdecoded, hresult, Sample.inOrder_frameOps ..⟩
    · exact hfits.render hscript hframe hr

/-- With five triangles to a frame, the fifth goes into the first plane again. -/
theorem small_sample_draws_cleanly :
    (5 < 255 ∧ Sample.streamSize 5 3 2 ≤ 65535) ∧
    ∃ offsets data s r, sampleScript 2 5 3 = .ok (offsets, data) ∧
      Script.ofParts offsets data = .ok s ∧
      Renderer.ofScript s .fourPlane 256 204 = .ok r ∧
      (∃ decoded ops offset shape, s.decodeFrame .fourPlane 1 = .ok decoded ∧
        decoded.result = .ok (ops, data.size - 8) ∧
        ops[4]? = some (.polygon offset 0xD2 0 shape) ∧ shape.size = 3) ∧
      ∃ report, (r.render 1).result = .ok report ∧ report.isClean ∧ report.drawn = 6 := by
  have hsize : 5 < 255 ∧ Sample.streamSize 5 3 2 ≤ 65535 := by decide
  obtain ⟨hexists, hclean⟩ := sample_scripts_draw_cleanly 2 5 3
  obtain ⟨⟨offsets, data⟩, hsample⟩ := hexists.mpr hsize
  obtain ⟨hoffsets, target, -, -, htarget, s, hscript, hopen, hframes⟩ :=
    hclean offsets data hsample (by decide)
  obtain ⟨r, hopened, hr⟩ := hopen 256 204
  obtain ⟨⟨decoded, ops, hdecoded, hresult, hinOrder⟩, hrender⟩ := hframes 1 (by decide)
  obtain ⟨offset, shape, hop, hshape, -⟩ := hinOrder.star 4 (by decide)
  obtain ⟨report, hreport, hisClean, hdrawn, -⟩ := hrender r hr
  have hend : offsets.getD (1 + 1) target = data.size - 8 := by
    rw [Array.getD_eq_getD_getElem?, Array.getElem?_eq_none (Nat.le_of_eq hoffsets),
      Option.getD_none, ← htarget, Sample.length_target]
    rfl
  rw [hend] at hresult
  exact ⟨hsize, offsets, data, s, r, hsample, hscript, hopened,
    ⟨decoded, ops, offset, shape, hdecoded, hresult, hop, hshape⟩, report, hreport, hisClean,
    hdrawn⟩

end Bitplane
