import Bitplane.Proofs.Renderer.Frame

/-! # Refused frames

No stream can end a session. A call that draws a frame is refused for one reason, that
the script has no such frame, and then leaves everything as it was. Whatever goes wrong
in a frame that the script has is told in its report.
-/

namespace Bitplane.Renderer

variable {r : Renderer} {frame : Nat}

theorem inStream_of_fault? (hr : r.revision.Consistent)
    (hsize : r.revision.planeCount ≤ r.planes.size) {fault : FrameFault}
    (h : r.fault? frame = some fault) : fault.inStream := by
  unfold Renderer.fault? at h
  split at h
  · cases h
  case h_2 d hdecoder =>
    have hfits : d.ops.findSome? (DrawOp.misfit? r.revision r.script.data r.planes.size) =
        none :=
      List.findSome?_eq_none_iff.mpr fun _ hop => misfit?_of_decoder hr hsize hdecoder hop
    rw [hfits, Option.none_or] at h
    exact Decoder.inStream_of_fault? h

theorem renderInto_of_le (h : r.frameCount ≤ frame) (image : Framebuffer) :
    r.renderInto frame image =
      (⟨r, .error (.frameIndex frame r.frameCount), []⟩, image) := by
  rw [renderInto, draw_of_le h]

theorem renderInto_fst (r : Renderer) (frame : Nat) (image : Framebuffer) :
    ∃ compositor, (r.renderInto frame image).1 =
      { r.draw frame with
        renderer := { (r.draw frame).renderer with compositor := compositor } } := by
  unfold renderInto
  dsimp only
  split
  · exact ⟨_, rfl⟩
  · exact ⟨_, rfl⟩

theorem render_eq_draw (r : Renderer) (frame : Nat) :
    (r.render frame).result = (r.draw frame).result ∧
      (r.render frame).renderer.planes = (r.draw frame).renderer.planes := by
  obtain ⟨compositor, heq⟩ := r.renderInto_fst frame r.framebuffer
  have hresult := congrArg Drawn.result heq
  have hplanes := congrArg (fun drawn => drawn.renderer.planes) heq
  exact ⟨hresult, hplanes⟩

theorem render_of_le (h : r.frameCount ≤ frame) :
    r.render frame = ⟨r, .error (.frameIndex frame r.frameCount), []⟩ := by
  rw [render, renderInto_of_le h]

/-- What a call that draws a frame may come to. -/
structure Answers (r : Renderer) (frame : Nat) (drawn : Drawn) : Prop where
  error_iff : ∀ fault, drawn.result = .error fault ↔
    r.frameCount ≤ frame ∧ fault = .frameIndex frame r.frameCount
  refused : r.frameCount ≤ frame → drawn.renderer = r
  reported : frame < r.frameCount → ∃ report, drawn.result = .ok report ∧
    report.fault = r.fault? frame ∧
    report.rejected = (r.carriedOut frame).filterMap
      (DrawOp.refused? r.revision r.script.data) ∧
    (∀ fault, report.fault = some fault ∨ fault ∈ report.rejected →
      (Fault.frame fault).isFrameLocal) ∧
    (r.revision.planeCount ≤ r.planes.size →
      ∀ plane count, report.fault ≠ some (.planeOutOfRange plane count))
  source_kept : drawn.renderer.script = r.script ∧ drawn.renderer.revision = r.revision

theorem answers_draw (hr : r.revision.Consistent) (frame : Nat) :
    r.Answers frame (r.draw frame) := by
  rcases Nat.lt_or_ge frame r.frameCount with hlt | hge
  · obtain ⟨c, hfollows, hfault, hdraw⟩ := draw_of_lt hr hlt
    rw [hdraw]
    refine ⟨fun fault => ?_, fun hge => ?_, fun _ => ⟨c.report, rfl, hfault, hfollows.rejected,
      fun fault _ => Fault.isFrameLocal_frame fault, fun hsize plane count hsome => ?_⟩, rfl, rfl⟩
    · constructor
      · intro h
        cases h
      · rintro ⟨hge, -⟩
        exact absurd hlt (Nat.not_lt_of_le hge)
    · exact absurd hlt (Nat.not_lt_of_le hge)
    · have hstream := inStream_of_fault? hr hsize (hfault.symm.trans hsome)
      cases hstream
  · rw [draw_of_le hge]
    refine ⟨fun fault => ?_, fun _ => rfl, fun hlt => ?_, rfl, rfl⟩
    · constructor
      · intro h
        cases h
        exact ⟨hge, rfl⟩
      · rintro ⟨-, rfl⟩
        rfl
    · exact absurd hlt (Nat.not_lt_of_le hge)

theorem answers_renderInto (hr : r.revision.Consistent) (frame : Nat) (image : Framebuffer) :
    r.Answers frame (r.renderInto frame image).1 := by
  have hdraw := answers_draw hr frame
  obtain ⟨compositor, heq⟩ := r.renderInto_fst frame image
  refine ⟨?_, fun hge => ?_, ?_, ?_⟩
  · rw [heq]
    exact hdraw.error_iff
  · rw [renderInto_of_le hge]
  · rw [heq]
    exact hdraw.reported
  · rw [heq]
    exact hdraw.source_kept

theorem answers_render (hr : r.revision.Consistent) (frame : Nat) :
    r.Answers frame (r.render frame) := by
  have hinto := answers_renderInto hr frame r.framebuffer
  refine ⟨hinto.error_iff, fun hge => ?_, hinto.reported, hinto.source_kept⟩
  rw [render_of_le hge]

/-- A call that draws a frame is refused if and only if the script has no such frame,
and changes nothing then, images included. The fault of any other frame, and each tween
that it rejects, is told in the report and spoils that frame alone; with all planes at
hand no plane is ever out of range. -/
theorem calls_refuse_only_missing_frames (r : Renderer) (hr : r.revision.validate = .ok ())
    (frame : Nat) (image : Framebuffer) :
    r.Answers frame (r.draw frame) ∧
      r.Answers frame (r.renderInto frame image).1 ∧
      (r.frameCount ≤ frame → (r.renderInto frame image).2 = image) ∧
      r.Answers frame (r.render frame) := by
  have hconsistent := Revision.validate_eq_ok_iff.mp hr
  refine ⟨answers_draw hconsistent frame, answers_renderInto hconsistent frame image,
    fun hge => ?_, answers_render hconsistent frame⟩
  rw [renderInto_of_le hge]

/-- With one plane of four, a frame that needs another is drawn up to there; a frame
that the script does not have is refused. -/
theorem calls_refuse_twoFrames :
    let r := twoFrames (.dark 1 4 4 4)
    r.revision.validate = .ok () ∧ (r.draw 7).result = .error (.frameIndex 7 2) ∧
      (r.render 7).renderer = r ∧
      ∃ report, (r.render 0).result = .ok report ∧
        report.fault = some (.planeOutOfRange 1 1) := by
  intro r
  have hr : Revision.fourPlane.validate = .ok () := by rfl
  have hcount : r.frameCount = 2 := rfl
  have hfault : r.fault? 0 = some (.planeOutOfRange 1 1) := by decide +kernel
  obtain ⟨hdraw, -, -, hrender⟩ := r.calls_refuse_only_missing_frames hr 7 r.framebuffer
  obtain ⟨-, -, -, hrendered⟩ := r.calls_refuse_only_missing_frames hr 0 r.framebuffer
  obtain ⟨report, hreport, hsome, -⟩ := hrendered.reported (by decide)
  exact ⟨hr, (hdraw.error_iff _).mpr ⟨by decide, rfl⟩, hrender.refused (by decide), report, hreport,
    hsome.trans hfault⟩

end Bitplane.Renderer
