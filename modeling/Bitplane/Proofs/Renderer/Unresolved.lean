import Bitplane.Proofs.Renderer.Inspection

/-! # Tweens that do not resolve

A tween whose records make no shape is told in the report and passed over: the frame is
drawn as if the command were not there. This holds of every tween that can be read, and a
backward delta that reaches in front of the data is a fault of reading, which ends the frame.
-/

namespace Bitplane

open DrawOp (ReadsAll ReadsList)

variable {revision : Revision} {data : Bytes} {start place offset stop : Nat}
  {command plane : UInt8} {payload : Bytes}

namespace DrawOp

variable {count more : Nat} {items rest : List (DrawOp × Nat)} {result : Except FrameFault Nat}

theorem ReadsAll.append (h : ReadsAll revision data count offset items (.ok stop))
    (hrest : ReadsAll revision data more stop rest result) :
    ReadsAll revision data (count + more) offset (items ++ rest) result := by
  induction h using induction_complete with
  | done =>
    rw [Nat.zero_add]
    exact hrest
  | next hread _ ih =>
    rw [Nat.add_right_comm]
    exact .next hread ih

end DrawOp

/-- A tween command with its whole payload in the draw list at `start`: it stands at `place`,
behind the commands that are read as `front`, and `behind` commands follow it. -/
structure TweenAt (revision : Revision) (data : Bytes) (start : Nat)
    (front : List (DrawOp × Nat)) (place : Nat) (command plane : UInt8) (payload : Bytes)
    (behind : Nat) : Prop where
  counted : ∃ count, readDrawCount revision data start = .ok count ∧
    count.toNat = front.length + (behind + 1)
  reached : ReadsAll revision data front.length (start + 1) front (.ok place)
  byte_eq : data[place]? = some command
  class_eq : revision.classify command = .tween plane
  payload_eq : data.slice? (place + 1) tweenPayload = some payload

theorem TweenRef.ofPayload_eq_error {base : Nat} {fault : TweenFault}
    (h : TweenRef.ofPayload base payload = .error fault) :
    ∃ delta, base < delta ∧ fault = .beforeStart base delta := by
  unfold ofPayload at h
  dsimp only at h
  split at h
  case isTrue => cases h
  case isFalse hback =>
    cases h
    exact ⟨_, Nat.lt_of_not_le hback, rfl⟩

namespace TweenAt

variable {front items : List (DrawOp × Nat)} {behind : Nat} {result : Except FrameFault Nat}
  (h : TweenAt revision data start front place command plane payload behind)
include h

theorem readsList (hrest : ReadsAll revision data (behind + 1) place items result) :
    ∃ count, ReadsList revision data start (some count) (front ++ items) result := by
  obtain ⟨count, hcount, hlength⟩ := h.counted
  have hall := h.reached.append hrest
  rw [← hlength] at hall
  exact ⟨count, .opened hcount hall⟩

theorem readsAll_of_ofPayload {ref : TweenRef}
    (href : TweenRef.ofPayload (place + 1) payload = .ok ref)
    (hbehind : ReadsAll revision data behind (place + 1 + tweenPayload) items result) :
    ReadsAll revision data (behind + 1) place
      ((.tween place command plane ref, place + 1 + tweenPayload) :: items) result :=
  .next (.tween h.byte_eq h.class_eq h.payload_eq href) hbehind

theorem readsAll_of_ofPayload_error {fault : TweenFault}
    (hfault : TweenRef.ofPayload (place + 1) payload = .error fault) :
    ReadsAll revision data (behind + 1) place [] (.error (.tween place fault)) := by
  have hread : DrawOp.read revision data place =
      (.error (.tween place fault), place + 1 + tweenPayload) := by
    simp only [DrawOp.read, h.byte_eq, h.class_eq, h.payload_eq, hfault]
  exact .stopped hread

end TweenAt

namespace Renderer

/-- What a frame leaves and reports that carries out these operations, rejects these tweens and
comes to this end or fault. -/
structure CarriesOut (r : Renderer) (frame : Nat) (ops : List DrawOp)
    (rejected : List FrameFault) (result : Except FrameFault Nat) (report : Report) : Prop where
  result_eq : (r.draw frame).result = .ok report
  rejected_eq : report.rejected = rejected
  skipped_eq : report.skipped = ops.countP DrawOp.isSkip + rejected.length
  drawn_eq : report.drawn = ops.countP fun op =>
    (op.shape? r.revision r.script.data).isSome
  mem_touched : ∀ plane, plane ∈ report.touched.toList ↔
    DrawOp.shapesInto r.revision r.script.data plane.toNat ops ≠ []
  getElem?_planes : ∀ n, (r.draw frame).renderer.planes.planes[n]? =
    r.planes.planes[n]?.map (Plane.redraw r.rasterizer.placement
      (DrawOp.shapesInto r.revision r.script.data n ops))
  fault_eq : report.fault = Decoder.faultOf? result
  endOffset_eq : report.endOffset = result.toOption

/-- The tweens among these operations that do not resolve, as a report tells them. -/
def refusals (r : Renderer) (items : List (DrawOp × Nat)) : List FrameFault :=
  (items.map Prod.fst).filterMap (DrawOp.refused? r.revision r.script.data)

variable {r : Renderer} {frame : Nat} {result : Except FrameFault Nat} {report : Report}

theorem exists_carriesOut (hr : r.revision.Consistent)
    (hsize : r.revision.planeCount ≤ r.planes.size)
    (hoffset : r.script.frameOffset frame = .ok start) {count : Option UInt8}
    {items : List (DrawOp × Nat)}
    (hlist : ReadsList r.revision r.script.data start count items result) :
    ∃ report, r.CarriesOut frame (items.map Prod.fst) (r.refusals items) result report := by
  have hframe : frame < r.frameCount := Nat.lt_of_not_le fun hle => by
    rw [frameOffset_of_le hle] at hoffset
    cases hoffset
  have hdecoder := Script.decoder_of_frameOffset r.revision hoffset
  have hgives := Decoder.gives_of_readsList hlist
  obtain ⟨c, hfollows, hfault, hdraw⟩ := draw_of_lt hr hframe
  have hreport : (r.draw frame).result = .ok c.report := by rw [hdraw]
  have hend := endOffset_of_draw hr hsize hoffset hlist hreport
  rw [carriedOut_eq_ops hr hsize hdecoder, hgives.ops] at hfollows
  rw [fault?_eq hr hsize hdecoder, hgives.fault?] at hfault
  refine ⟨c.report, hreport, hfollows.rejected, ?_, hfollows.drawn, hfollows.mem_touched, ?_,
    hfault, hend⟩
  · rw [hfollows.skipped, DrawOp.countP_shape?_eq_none, refusals]
  · rw [hdraw]
    exact hfollows.getElem?_planes

theorem CarriesOut.without {op : DrawOp} {before behind : List DrawOp}
    {rejected : List FrameFault}
    (h : r.CarriesOut frame (before ++ op :: behind) rejected result report)
    (hshape : op.shape? r.revision r.script.data = none) (hskip : op.isSkip = false) :
    r.CarriesOut frame (before ++ behind) rejected result report := by
  have hinto (n : Nat) : DrawOp.shapesInto r.revision r.script.data n (before ++ op :: behind) =
      DrawOp.shapesInto r.revision r.script.data n (before ++ behind) := by
    simp only [DrawOp.shapesInto, List.filterMap_append, List.filterMap_cons, hshape]
  refine ⟨h.result_eq, h.rejected_eq, ?_, ?_, fun plane => ?_, fun n => ?_, h.fault_eq,
    h.endOffset_eq⟩
  · rw [h.skipped_eq, List.countP_append, List.countP_append,
      List.countP_cons_of_neg (by simp [hskip])]
  · rw [h.drawn_eq, List.countP_append, List.countP_append,
      List.countP_cons_of_neg (by simp [hshape])]
  · rw [← hinto]
    exact h.mem_touched plane
  · rw [← hinto]
    exact h.getElem?_planes n

/-- A tween that is not resolved is refused and otherwise as if it were not there. -/
theorem CarriesOut.without_tween {front items : List (DrawOp × Nat)} {ref : TweenRef}
    {fault : TweenFault}
    (h : r.CarriesOut frame
      ((front ++ (.tween place command plane ref, stop) :: items).map Prod.fst)
      (r.refusals (front ++ (.tween place command plane ref, stop) :: items)) result report)
    (hfault : Tween.polygon r.revision r.script.data ref = .error fault) :
    r.CarriesOut frame (front.map Prod.fst ++ items.map Prod.fst)
      (r.refusals front ++ .tween place fault :: r.refusals items) result report := by
  have hshape : (DrawOp.tween place command plane ref).shape? r.revision r.script.data = none := by
    simp only [DrawOp.shape?, hfault]
  have hrefused : (DrawOp.tween place command plane ref).refused? r.revision r.script.data =
      some (.tween place fault) := by
    simp only [DrawOp.refused?, hfault]
  rw [List.map_append, List.map_cons, refusals, List.map_append, List.map_cons,
    List.filterMap_append, List.filterMap_cons_some hrefused] at h
  exact h.without hshape rfl

/-- A tween command with its whole payload that is read, but not resolved for whatever reason, is
told in the report and counted as passed over. Its plane is not touched for it: the commands in
front of it and behind it are carried out as if it were not there, up to the end or the fault
that they come to. A tween whose backward delta reaches in front of the data is the exception. It
is not told among the rejected ones but as the fault that ends the frame, and none of the
commands behind it is carried out. -/
theorem draw_passes_over_unresolved_tweens (r : Renderer) (hr : r.revision.validate = .ok ())
    (hsize : r.planes.size = r.revision.planeCount)
    (hoffset : r.script.frameOffset frame = .ok start) {front items : List (DrawOp × Nat)}
    {behind : Nat}
    (htween : TweenAt r.revision r.script.data start front place command plane payload behind)
    (hbehind : ReadsAll r.revision r.script.data behind (place + 1 + tweenPayload) items result) :
    (∀ ref fault, TweenRef.ofPayload (place + 1) payload = .ok ref →
      Tween.polygon r.revision r.script.data ref = .error fault →
      ∃ report, r.CarriesOut frame (front.map Prod.fst ++ items.map Prod.fst)
        (r.refusals front ++ .tween place fault :: r.refusals items) result report) ∧
    ∀ fault, TweenRef.ofPayload (place + 1) payload = .error fault →
      (∃ delta, place + 1 < delta ∧ fault = .beforeStart (place + 1) delta) ∧
      ∃ report, r.CarriesOut frame (front.map Prod.fst) (r.refusals front)
        (.error (.tween place fault)) report := by
  have hconsistent := Revision.validate_eq_ok_iff.mp hr
  have hall := Nat.le_of_eq hsize.symm
  constructor
  · intro ref fault href hfault
    obtain ⟨count, hlist⟩ := htween.readsList (htween.readsAll_of_ofPayload href hbehind)
    obtain ⟨report, hcarries⟩ := exists_carriesOut hconsistent hall hoffset hlist
    exact ⟨report, hcarries.without_tween hfault⟩
  · intro fault hfault
    obtain ⟨count, hlist⟩ := htween.readsList (htween.readsAll_of_ofPayload_error hfault)
    rw [List.append_nil] at hlist
    exact ⟨TweenRef.ofPayload_eq_error hfault,
      exists_carriesOut hconsistent hall hoffset hlist⟩

/-- One frame: a tween from `back` bytes in front of offset 2, where no polygon is, and a triangle
behind it. -/
def tweenFrom (back : UInt8) : Renderer where
  script :=
    { offsets := #[0]
      data := #[2, 0xE6, 0, back, 0, 0, 1, 2, 0xD3, 3, 0, 0, 0, 3, 3, 0]
      offset_lt := by simp }
  revision := .fourPlane
  planes := .dark 4 4 4 4
  palette := .layered
  rasterizer := .ofPlacement .identity
  compositor := .empty
  framebuffer := .black 4 4

theorem size_planes_tweenFrom (back : UInt8) :
    (tweenFrom back).planes.size = (tweenFrom back).revision.planeCount := by
  simp [tweenFrom, PlaneStore.dark, PlaneStore.size, Revision.fourPlane]

theorem tweenAt_tweenFrom (back : UInt8) :
    TweenAt (tweenFrom back).revision (tweenFrom back).script.data 0 [] 1 0xE6 0
      #[0, back, 0, 0, 1, 2] 1 where
  counted := ⟨2, rfl, rfl⟩
  reached := .done
  byte_eq := rfl
  class_eq := (by decide +kernel : Revision.fourPlane.classify 0xE6 = .tween 0)
  payload_eq := rfl

theorem readsAll_tweenFrom (back : UInt8) :
    ReadsAll (tweenFrom back).revision (tweenFrom back).script.data 1 8
      [(.polygon 8 0xD3 1 ⟨[⟨0, 0⟩, ⟨0, 3⟩, ⟨3, 0⟩]⟩, 16)] (.ok 16) :=
  have hclass : Revision.fourPlane.classify 0xD3 = .polygon 1 := by decide +kernel
  .next (.polygon rfl hclass rfl) .done

/-- The tween points to a byte that is no polygon: it is passed over, and the triangle is drawn. -/
theorem draw_passes_over_tween_to_payload :
    let r := tweenFrom 0
    r.revision.validate = .ok () ∧ ∃ report, (r.draw 0).result = .ok report ∧
      report.rejected = [.tween 1 (.notAPolygon 2 0)] ∧ report.skipped = 1 ∧
      report.drawn = 1 ∧ report.fault = none ∧ report.endOffset = some 16 := by
  intro r
  have hr : Revision.fourPlane.validate = .ok () := by rfl
  have hfault : Tween.polygon r.revision r.script.data ⟨2, 2, 1, 2⟩ =
      .error (.notAPolygon 2 0) := by decide +kernel
  have hoffset : r.script.frameOffset 0 = .ok 0 := rfl
  have href : TweenRef.ofPayload (1 + 1) #[0, 0, 0, 0, 1, 2] = .ok ⟨2, 2, 1, 2⟩ := by
    decide +kernel
  obtain ⟨hpasses, -⟩ := r.draw_passes_over_unresolved_tweens hr (size_planes_tweenFrom 0) hoffset
    (tweenAt_tweenFrom 0) (readsAll_tweenFrom 0)
  obtain ⟨report, hcarries⟩ := hpasses _ _ href hfault
  exact ⟨hr, report, hcarries.result_eq, hcarries.rejected_eq, hcarries.skipped_eq,
    hcarries.drawn_eq, hcarries.fault_eq, hcarries.endOffset_eq⟩

/-- The tween reaches in front of the data: it is not told among the rejected ones, and the
triangle behind it, which can be read, is not drawn. -/
theorem tween_before_start_ends_frame :
    let r := tweenFrom 255
    r.revision.validate = .ok () ∧ r.planes.size = r.revision.planeCount ∧
      TweenAt r.revision r.script.data 0 [] 1 0xE6 0 #[0, 255, 0, 0, 1, 2] 1 ∧
      ReadsAll r.revision r.script.data 1 8
        [(.polygon 8 0xD3 1 ⟨[⟨0, 0⟩, ⟨0, 3⟩, ⟨3, 0⟩]⟩, 16)] (.ok 16) ∧
      ∃ report, (r.draw 0).result = .ok report ∧ report.rejected = [] ∧ report.skipped = 0 ∧
        report.drawn = 0 ∧ report.fault = some (.tween 1 (.beforeStart 2 255)) ∧
        (r.draw 0).renderer.planes = r.planes := by
  intro r
  have hr : Revision.fourPlane.validate = .ok () := by rfl
  have hresult : (r.draw 0).result = .ok
      { Report.start 0 0 with fault := some (.tween 1 (.beforeStart 2 255)) } := by
    decide +kernel
  exact ⟨hr, size_planes_tweenFrom 255, tweenAt_tweenFrom 255, readsAll_tweenFrom 255, _, hresult,
    rfl, rfl, rfl, rfl, by rfl⟩

end Renderer

end Bitplane
