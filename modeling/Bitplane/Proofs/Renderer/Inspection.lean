import Bitplane.Proofs.DrawList.Runs
import Bitplane.Proofs.Renderer.Frame
import Mathlib.Data.List.TakeWhile

/-! # Inspecting and drawing

To inspect a frame and to draw it is to go through the same steps of a decoder. With all
planes at hand the report of a drawn frame tells what inspecting finds: the same end or
the same fault, and each operation once as drawn or as passed over.
-/

namespace Bitplane

open DrawOp (ReadsList)
open Decoder (Trace)

variable {count : Option UInt8} {steps : List Decoder.Step} {items : List (DrawOp × Nat)}
  {result : Except FrameFault Nat}

theorem Script.collect_of_trace (h : Trace count steps items result) (ops : List DrawOp)
    (position : Nat) : Script.collect steps ops position =
      result.map fun stop => (ops.reverse ++ items.map Prod.fst, stop) := by
  induction h generalizing ops position with
  | finished hnone => simp [collect, hnone, Except.map]
  | failed hfault => simp [collect, hfault, Except.map]
  | read hop _ ih => simp [collect, hop, ih]

theorem Script.decodeFrame_of_readsList {script : Script} {revision : Revision}
    {frame start : Nat} (hoffset : script.frameOffset frame = .ok start)
    (hlist : ReadsList revision script.data start count items result) :
    ∃ decoded, script.decodeFrame revision frame = .ok decoded ∧
      decoded.result = result.map fun stop => (items.map Prod.fst, stop) := by
  have hcollect := collect_of_trace (Decoder.trace_of_readsList hlist) [] start
  refine ⟨⟨_, (Decoder.ofStart revision script.data start).steps.flatMap Decoder.Step.notices⟩,
    ?_, hcollect⟩
  rw [decodeFrame, decoder_of_frameOffset revision hoffset]
  rfl

namespace Canvas

variable {revision : Revision} {data : Bytes} {placement : Placement} {planes : PlaneStore}
  {ops : List DrawOp} {op : DrawOp} {c : Canvas}

theorem endOffset_stop (c : Canvas) (fault : FrameFault) :
    (c.stop fault).report.endOffset = c.report.endOffset := by
  rw [stop_eq]

theorem Follows.drawn_add_skipped (h : Follows revision data placement planes ops c) :
    c.report.drawn + c.report.skipped = ops.length := by
  rw [h.drawn, h.skipped,
    List.length_eq_countP_add_countP fun op => (op.shape? revision data).isSome]
  refine congrArg _ (List.countP_congr fun op _ => ?_)
  simp

/-- A run that no missing plane stops reports the end that the steps come to. -/
theorem Follows.endOffset_run (h : Follows revision data placement planes ops c)
    (htrace : Trace count steps items result)
    (hplane : ∀ op ∈ items.map Prod.fst, ∀ plane, op.plane? = some plane → plane.toNat < 8)
    (hfits : ∀ op ∈ items.map Prod.fst, op.misfit? revision data planes.size = none)
    (hfault : c.report.fault = none) (hend : c.report.endOffset = none) :
    (c.run revision data steps).report.endOffset = result.toOption := by
  -- on the steps; the canvas grows with the operations done so far
  induction htrace generalizing c ops with
  | finished hnone hphase =>
    simp only [Canvas.run, hnone, Decoder.endOffset?, hphase]
    rfl
  | failed hsome =>
    simp only [Canvas.run, hsome]
    rw [endOffset_stop]
    exact hend
  | @read s rest op _ _ hop _ ih =>
    simp only [Canvas.run, hop]
    have hsaid : Follows revision data placement planes ops
        { c with notices := c.notices ++ s.notices } :=
      h.congr _ c.report.endOffset c.report.fault
    obtain ⟨happly, hkept⟩ := hsaid.apply (hplane op List.mem_cons_self)
      (hfits op List.mem_cons_self)
    have hnone := hkept.trans hfault
    rw [if_neg (not_isStopped hnone happly.escaped)]
    exact ih happly (fun op hmem => hplane op (List.mem_cons_of_mem _ hmem))
      (fun op hmem => hfits op (List.mem_cons_of_mem _ hmem)) hnone
      ((apply_keeps _ revision data op).2.trans hend)

end Canvas

namespace Renderer

variable {r : Renderer} {frame : Nat} {d : Decoder}

theorem carriedOut_eq_ops (hr : r.revision.Consistent)
    (hsize : r.revision.planeCount ≤ r.planes.size)
    (h : r.script.decoder r.revision frame = .ok d) : r.carriedOut frame = d.ops := by
  rw [carriedOut, h]
  refine List.takeWhile_eq_self_iff.mpr fun op hop => ?_
  rw [misfit?_of_decoder hr hsize h hop]
  rfl

theorem fault?_eq (hr : r.revision.Consistent)
    (hsize : r.revision.planeCount ≤ r.planes.size)
    (h : r.script.decoder r.revision frame = .ok d) : r.fault? frame = d.fault? := by
  have hfits : d.ops.findSome? (DrawOp.misfit? r.revision r.script.data r.planes.size) = none :=
    List.findSome?_eq_none_iff.mpr fun _ hop => misfit?_of_decoder hr hsize h hop
  rw [fault?, h]
  dsimp only
  rw [hfits, Option.none_or]

theorem report_eq_of_draw {report : Report} {start : Nat}
    (hoffset : r.script.frameOffset frame = .ok start)
    (h : (r.draw frame).result = .ok report) :
    report = (Canvas.run r.revision r.script.data
      (Decoder.ofStart r.revision r.script.data start).steps
      ⟨r.planes, r.rasterizer, Report.start frame start, [], none⟩).report := by
  unfold draw at h
  rw [hoffset] at h
  dsimp only at h
  split at h
  · cases h
  · cases h
    rfl

theorem endOffset_of_draw (hr : r.revision.Consistent)
    (hsize : r.revision.planeCount ≤ r.planes.size) {report : Report} {start : Nat}
    (hoffset : r.script.frameOffset frame = .ok start)
    (hlist : ReadsList r.revision r.script.data start count items result)
    (h : (r.draw frame).result = .ok report) : report.endOffset = result.toOption := by
  have hdecoder := Script.decoder_of_frameOffset r.revision hoffset
  have hops := (Decoder.gives_of_readsList hlist).ops
  rw [report_eq_of_draw hoffset h]
  refine (Canvas.follows_start r.revision r.script.data r.planes r.rasterizer frame
    start).endOffset_run (Decoder.trace_of_readsList hlist) ?_ ?_ rfl rfl
  · intro op hop plane hplane
    rw [← hops] at hop
    have hlt := plane_lt_of_decoder hr hdecoder hop hplane
    have hle : r.revision.planeCount ≤ 4 := hr.planeCount_le
    omega
  · intro op hop
    rw [← hops] at hop
    exact misfit?_of_decoder hr hsize hdecoder hop

theorem draw_isClean (hr : r.revision.Consistent) (hsize : r.revision.planeCount ≤ r.planes.size)
    {start stop : Nat} (hoffset : r.script.frameOffset frame = .ok start)
    (hlist : ReadsList r.revision r.script.data start count items (.ok stop))
    (hdraws : ∀ op ∈ items.map Prod.fst, (op.shape? r.revision r.script.data).isSome) :
    ∃ report, (r.draw frame).result = .ok report ∧ report.isClean ∧
      report.drawn = items.length ∧ (r.draw frame).renderer.planes.size = r.planes.size := by
  have hframe : frame < r.frameCount := Nat.lt_of_not_le fun hle => by
    rw [frameOffset_of_le hle] at hoffset
    cases hoffset
  have hdecoder := Script.decoder_of_frameOffset r.revision hoffset
  have hgives := Decoder.gives_of_readsList hlist
  obtain ⟨c, hfollows, hfault, hdraw⟩ := draw_of_lt hr hframe
  rw [carriedOut_eq_ops hr hsize hdecoder, hgives.ops] at hfollows
  rw [fault?_eq hr hsize hdecoder, hgives.fault?] at hfault
  have hrejected : c.report.rejected = [] := by
    rw [hfollows.rejected, List.filterMap_eq_nil_iff]
    intro op hop
    obtain ⟨target, hshape⟩ := Option.isSome_iff_exists.mp (hdraws op hop)
    exact DrawOp.refused?_of_shape? hshape
  have hdrawn : c.report.drawn = items.length := by
    rw [hfollows.drawn, List.countP_eq_length.mpr hdraws, List.length_map]
  rw [hdraw]
  refine ⟨c.report, rfl, ?_, hdrawn, hfollows.size_planes⟩
  rw [Report.isClean, hfault, hrejected]
  rfl

/-- What a drawn frame reports is what inspecting it finds. If the frame decodes, the report
has no fault and the same end; if not, the report has the same fault and no end. Either way
every operation in front is counted once: polygons and the tweens that resolve as drawn, the
other tweens, each told with its fault, and skipped commands as passed over. -/
theorem draw_agrees_with_decodeFrame (r : Renderer) (hr : r.revision.validate = .ok ())
    (hsize : r.planes.size = r.revision.planeCount) {frame : Nat} (hframe : frame < r.frameCount) :
    ∃ (d : Decoder) (decoded : Script.Decoded) (report : Report),
      r.script.decoder r.revision frame = .ok d ∧
      r.script.decodeFrame r.revision frame = .ok decoded ∧
      (r.draw frame).result = .ok report ∧
      (match decoded.result with
        | .ok (ops, stop) => d.ops = ops ∧ report.fault = none ∧ report.endOffset = some stop ∧
            report.drawn + report.skipped = ops.length
        | .error fault => report.fault = some fault ∧ report.endOffset = none ∧
            report.drawn + report.skipped = d.ops.length) ∧
      report.drawn = d.ops.countP DrawOp.isPolygon +
        d.ops.countP (DrawOp.resolves r.revision r.script.data) ∧
      report.skipped = d.ops.countP DrawOp.isSkip + report.rejected.length ∧
      report.rejected = d.ops.filterMap (DrawOp.refused? r.revision r.script.data) := by
  have hconsistent := Revision.validate_eq_ok_iff.mp hr
  have hall := Nat.le_of_eq hsize.symm
  obtain ⟨start, hoffset⟩ := frameOffset_of_lt hframe
  obtain ⟨c, hfollows, hfault, hdraw⟩ := draw_of_lt hconsistent hframe
  obtain ⟨count, items, result, hlist⟩ :=
    DrawOp.exists_readsList r.revision r.script.data start
  obtain ⟨decoded, hdecoded, hresult⟩ := Script.decodeFrame_of_readsList hoffset hlist
  have hgives := Decoder.gives_of_readsList hlist
  have hdecoder := Script.decoder_of_frameOffset r.revision hoffset
  generalize Decoder.ofStart r.revision r.script.data start = d at hgives hdecoder
  rw [carriedOut_eq_ops hconsistent hall hdecoder] at hfollows
  rw [fault?_eq hconsistent hall hdecoder, hgives.fault?] at hfault
  have hreport : (r.draw frame).result = .ok c.report := by rw [hdraw]
  have hend := endOffset_of_draw hconsistent hall hoffset hlist hreport
  have hcounted := hfollows.drawn_add_skipped
  refine ⟨d, decoded, c.report, hdecoder, hdecoded, hreport, ?_, ?_, ?_, hfollows.rejected⟩
  · rw [hresult]
    cases result with
    | ok stop => exact ⟨hgives.ops, hfault, hend, by rw [hcounted, hgives.ops]⟩
    | error fault => exact ⟨hfault, hend, hcounted⟩
  · rw [hfollows.drawn, DrawOp.countP_shape?]
  · rw [hfollows.skipped, DrawOp.countP_shape?_eq_none, hfollows.rejected]

/-- The first frame decodes, and passes over a tween; the second breaks off behind a polygon. -/
theorem draw_agrees_twoFrames :
    let r := twoFrames (.dark 4 4 4 4)
    r.revision.validate = .ok () ∧ r.planes.size = r.revision.planeCount ∧
      (∃ report, (r.draw 0).result = .ok report ∧ report.fault = none ∧
        report.endOffset = some 18 ∧ report.drawn = 2 ∧
        report.rejected = [.tween 11 (.notAPolygon 12 0)]) ∧
      ∃ report, (r.draw 1).result = .ok report ∧ report.fault ≠ none ∧
        report.endOffset = none ∧ report.drawn + report.skipped = 1 := by
  intro r
  have hr : Revision.fourPlane.validate = .ok () := by rfl
  have hsize : r.planes.size = r.revision.planeCount := by
    simp [r, twoFrames, PlaneStore.dark, PlaneStore.size, Revision.fourPlane]
  refine ⟨hr, hsize, ?_, ?_⟩
  · have hstop : ((r.script.decodeFrame r.revision 0).toOption.bind
        fun decoded => decoded.result.toOption).map Prod.snd = some 18 := by decide +kernel
    have hcounted : (r.script.decoder r.revision 0).toOption.map (fun d =>
        (d.ops.countP DrawOp.isPolygon + d.ops.countP (DrawOp.resolves r.revision r.script.data),
          d.ops.filterMap (DrawOp.refused? r.revision r.script.data))) =
        some (2, [.tween 11 (.notAPolygon 12 0)]) := by decide +kernel
    obtain ⟨d, decoded, report, hd, hdecoded, hreport, hresult, hdrawn, -, hrejected⟩ :=
      r.draw_agrees_with_decodeFrame hr hsize (show 0 < r.frameCount by decide)
    rw [hdecoded] at hstop
    rw [hd] at hcounted
    obtain ⟨hpolygons, htweens⟩ := Prod.mk.inj (Option.some.inj hcounted)
    refine ⟨report, hreport, ?_⟩
    rcases hcase : decoded.result with fault | ⟨ops, stop⟩
    · simp [Except.toOption, hcase] at hstop
    · rw [hcase] at hresult
      obtain ⟨-, hfault, hend, -⟩ := hresult
      obtain rfl : stop = 18 := by simpa [Except.toOption, hcase] using hstop
      exact ⟨hfault, hend, hdrawn.trans hpolygons, hrejected.trans htweens⟩
  · have hnone : (r.script.decodeFrame r.revision 1).toOption.bind
        (fun decoded => decoded.result.toOption) = none := by decide +kernel
    have hcounted : (r.script.decoder r.revision 1).toOption.map (fun d => d.ops.length) =
        some 1 := by decide +kernel
    obtain ⟨d, decoded, report, hd, hdecoded, hreport, hresult, -⟩ :=
      r.draw_agrees_with_decodeFrame hr hsize (show 1 < r.frameCount by decide)
    rw [hdecoded] at hnone
    rw [hd] at hcounted
    refine ⟨report, hreport, ?_⟩
    rcases hcase : decoded.result with fault | ⟨ops, stop⟩
    · rw [hcase] at hresult
      obtain ⟨hfault, hend, hlength⟩ := hresult
      exact ⟨by simp [hfault], hend, hlength.trans (Option.some.inj hcounted)⟩
    · simp [Except.toOption, hcase] at hnone

end Renderer

end Bitplane
