import Bitplane.Proofs.DrawList.Outcomes
import Bitplane.Proofs.DrawList.Shapes
import Bitplane.Proofs.Options
import Bitplane.Proofs.Plane.Redraw
import Bitplane.Renderer

/-! # Drawing a frame

A frame carries out the operations of its draw list up to the first fault. What it
leaves in a plane and what it reports follow from these operations alone: every
plane is drawn anew with the shapes that go into it, and those that get none stay.
-/

namespace Bitplane

theorem PlaneStore.set_eq_modify {s : PlaneStore} {plane : UInt8} {p : Plane}
    (h : s.planes[plane.toNat]? = some p) (f : Plane → Plane) :
    s.set plane (f p) = ⟨s.planes.modify plane.toNat f⟩ :=
  congrArg PlaneStore.mk (setIfInBounds_eq_modify h f)

namespace Canvas

variable {revision : Revision} {data : Bytes} {placement : Placement} {planes : PlaneStore}
  {ops : List DrawOp} {op : DrawOp} {plane : UInt8} {shape : Polygon} {fault : FrameFault}
  (c : Canvas)

/-! ## One step -/

theorem stop_eq (fault : FrameFault) :
    c.stop fault =
      { c with
        report := { c.report with fault := some fault }
        notices := c.notices ++
          [⟨.warn, .renderer, s!"frame {c.report.frame}: {fault.message}"⟩] } :=
  if_pos (Fault.isFrameLocal_frame fault)

theorem isStopped_stop (fault : FrameFault) : (c.stop fault).isStopped := by
  rw [stop_eq]
  rfl

theorem fault_stop (fault : FrameFault) : (c.stop fault).report.fault = some fault := by
  rw [stop_eq]

theorem not_isStopped {c : Canvas} (hfault : c.report.fault = none) (hescaped : c.escaped = none) :
    ¬c.isStopped := by
  simp [isStopped, hfault, hescaped]

theorem draw_of_lt (shape : Polygon) (h : plane.toNat < c.planes.size) :
    ∃ z : Rasterizer, z.placement = c.rasterizer.placement ∧
      c.draw plane shape =
        { c with
          planes := ⟨c.planes.planes.modify plane.toNat
            (Plane.fill c.rasterizer.placement shape.vertices
              (!c.report.touched.contains plane))⟩
          rasterizer := z
          report := { c.report with
            drawn := c.report.drawn + 1, touched := c.report.touched.insert plane }
          notices := c.notices ++ (c.planes.planes[plane.toNat]?.bind fun p =>
            c.rasterizer.fillNotice? p shape.vertices).toList } := by
  have hget := Array.getElem?_eq_getElem h
  generalize c.planes.planes[plane.toNat] = target at hget
  refine ⟨_, c.rasterizer.placement_fill target shape.vertices
    (!c.report.touched.contains plane), ?_⟩
  rw [← PlaneStore.set_eq_modify hget, ← Rasterizer.fill_fst]
  simp only [draw, PlaneStore.get, hget, Option.bind_some]

theorem draw_of_le (h : c.planes.size ≤ plane.toNat) :
    c.draw plane shape = c.stop (.planeOutOfRange plane c.planes.size) := by
  simp only [draw, PlaneStore.get, Array.getElem?_eq_none h]

theorem apply_of_shape? (h : op.shape? revision data = some (plane, shape)) :
    c.apply revision data op = c.draw plane shape := by
  cases op with
  | polygon =>
    cases h
    rfl
  | tween offset command _ ref =>
    simp only [DrawOp.shape?, apply] at h ⊢
    cases hpolygon : Tween.polygon revision data ref with
    | ok =>
      rw [hpolygon] at h
      cases h
      rfl
    | error =>
      rw [hpolygon] at h
      cases h
  | skip => cases h

theorem apply_of_shape?_eq_none (h : op.shape? revision data = none) :
    ∃ notices, c.apply revision data op =
      { c with
        report := { c.report with
          skipped := c.report.skipped + 1
          rejected := c.report.rejected ++ (op.refused? revision data).toList }
        notices := notices } := by
  cases op with
  | polygon => cases h
  | tween offset command _ ref =>
    simp only [DrawOp.shape?, DrawOp.refused?, apply] at h ⊢
    cases hpolygon : Tween.polygon revision data ref with
    | ok =>
      rw [hpolygon] at h
      cases h
    | error => exact ⟨_, rfl⟩
  | skip =>
    refine ⟨c.notices, ?_⟩
    simp [apply, skip, DrawOp.refused?]

/-- No operation changes the placement, and none is the end of a draw list. -/
theorem apply_keeps (revision : Revision) (data : Bytes) (op : DrawOp) :
    (c.apply revision data op).rasterizer.placement = c.rasterizer.placement ∧
      (c.apply revision data op).report.endOffset = c.report.endOffset := by
  cases hshape : op.shape? revision data with
  | none =>
    obtain ⟨notices, happly⟩ := c.apply_of_shape?_eq_none hshape
    rw [happly]
    exact ⟨rfl, rfl⟩
  | some target =>
    obtain ⟨plane, shape⟩ := target
    rw [c.apply_of_shape? hshape]
    rcases Nat.lt_or_ge plane.toNat c.planes.size with hlt | hge
    · obtain ⟨z, hz, hdraw⟩ := c.draw_of_lt shape hlt
      rw [hdraw]
      exact ⟨hz, rfl⟩
    · rw [c.draw_of_le hge, stop_eq]
      exact ⟨rfl, rfl⟩

/-! ## What a run keeps -/

/-- Where a frame that began with these planes stands after some operations. -/
structure Follows (revision : Revision) (data : Bytes) (placement : Placement)
    (planes : PlaneStore) (ops : List DrawOp) (c : Canvas) : Prop where
  placement_eq : c.rasterizer.placement = placement
  size_planes : c.planes.size = planes.size
  getElem?_planes : ∀ n, c.planes.planes[n]? =
    planes.planes[n]?.map (Plane.redraw placement (DrawOp.shapesInto revision data n ops))
  mem_touched : ∀ plane, plane ∈ c.report.touched.toList ↔
    DrawOp.shapesInto revision data plane.toNat ops ≠ []
  drawn : c.report.drawn = ops.countP fun op => (op.shape? revision data).isSome
  skipped : c.report.skipped = ops.countP fun op => (op.shape? revision data).isNone
  rejected : c.report.rejected = ops.filterMap (DrawOp.refused? revision data)
  escaped : c.escaped = none

theorem follows_start (revision : Revision) (data : Bytes) (planes : PlaneStore)
    (z : Rasterizer) (frame offset : Nat) :
    Follows revision data z.placement planes []
      ⟨planes, z, Report.start frame offset, [], none⟩ where
  placement_eq := rfl
  size_planes := rfl
  getElem?_planes n := by
    cases planes.planes[n]? <;> rfl
  mem_touched plane := by
    constructor
    · intro h
      exact absurd h (PlaneMask.not_mem_toList_empty plane)
    · intro h
      exact absurd rfl h
  drawn := rfl
  skipped := rfl
  rejected := rfl
  escaped := rfl

namespace Follows

variable {c} (h : Follows revision data placement planes ops c)
include h

theorem congr (notices : List Notice) (endOffset : Option Nat) (fault : Option FrameFault) :
    Follows revision data placement planes ops
      { c with
        report := { c.report with endOffset := endOffset, fault := fault }
        notices := notices } :=
  ⟨h.placement_eq, h.size_planes, h.getElem?_planes, h.mem_touched, h.drawn, h.skipped, h.rejected,
    h.escaped⟩

theorem stop (fault : FrameFault) :
    Follows revision data placement planes ops (c.stop fault) := by
  rw [stop_eq]
  exact h.congr _ _ _

theorem clears (hplane : plane.toNat < 8) :
    (!c.report.touched.contains plane) =
      (DrawOp.shapesInto revision data plane.toNat ops).isEmpty := by
  have htouched := h.mem_touched plane
  rw [PlaneMask.mem_toList, and_iff_right hplane] at htouched
  rw [Bool.eq_iff_iff, Bool.not_eq_true', ← Bool.not_eq_true, htouched, List.isEmpty_iff,
    Decidable.not_not]

theorem draw (hplane : plane.toNat < 8) (hlt : plane.toNat < planes.size)
    (hshape : op.shape? revision data = some (plane, shape)) :
    Follows revision data placement planes (ops ++ [op]) (c.draw plane shape) := by
  obtain ⟨z, hz, hdraw⟩ := c.draw_of_lt shape (h.size_planes ▸ hlt)
  rw [hdraw, h.clears hplane, h.placement_eq]
  exact
    { placement_eq := hz.trans h.placement_eq
      size_planes := by
        rw [← h.size_planes]
        exact Array.size_modify
      getElem?_planes := fun n => by
        rw [Array.getElem?_modify, h.getElem?_planes, DrawOp.shapesInto_concat_some n ops hshape]
        split
        case isTrue heq =>
          -- the shape comes last, and clears the plane if it comes first as well
          subst heq
          rw [Option.map_map]
          exact Option.map_congr fun p _ => (p.redraw_concat ..).symm
        case isFalse => rw [List.append_nil]
      mem_touched := fun other => by
        rw [PlaneMask.mem_toList_insert hplane, h.mem_touched,
          DrawOp.shapesInto_concat_some _ ops hshape]
        by_cases heq : plane = other
        · simp [heq]
        · have hne : plane.toNat ≠ other.toNat := fun hn => heq (UInt8.toNat_inj.mp hn)
          simp [hne, Ne.symm heq]
      drawn := by
        rw [List.countP_append, ← h.drawn]
        simp [hshape]
      skipped := by
        rw [List.countP_append, ← h.skipped]
        simp [hshape]
      rejected := by
        rw [List.filterMap_append, ← h.rejected]
        simp [DrawOp.refused?_of_shape? hshape]
      escaped := h.escaped }

theorem pass (hshape : op.shape? revision data = none) :
    Follows revision data placement planes (ops ++ [op])
      (c.apply revision data op) := by
  obtain ⟨notices, happly⟩ := c.apply_of_shape?_eq_none hshape
  rw [happly]
  exact
    { placement_eq := h.placement_eq
      size_planes := h.size_planes
      getElem?_planes := fun n => by
        rw [DrawOp.shapesInto_concat_none n ops hshape]
        exact h.getElem?_planes n
      mem_touched := fun plane => by
        rw [DrawOp.shapesInto_concat_none _ ops hshape]
        exact h.mem_touched plane
      drawn := by
        rw [List.countP_append, ← h.drawn]
        simp [hshape]
      skipped := by
        rw [List.countP_append, ← h.skipped]
        simp [hshape]
      rejected := by
        rw [List.filterMap_append, ← h.rejected, List.filterMap_cons]
        cases op.refused? revision data <;> rfl
      escaped := h.escaped }

theorem apply (hplane : ∀ plane, op.plane? = some plane → plane.toNat < 8)
    (hfit : op.misfit? revision data planes.size = none) :
    Follows revision data placement planes (ops ++ [op])
        (c.apply revision data op) ∧
      (c.apply revision data op).report.fault = c.report.fault := by
  cases hshape : op.shape? revision data with
  | none =>
    refine ⟨h.pass hshape, ?_⟩
    obtain ⟨notices, happly⟩ := c.apply_of_shape?_eq_none hshape
    rw [happly]
  | some target =>
    obtain ⟨plane, shape⟩ := target
    have hlt := DrawOp.misfit?_eq_none_iff.mp hfit plane shape hshape
    rw [c.apply_of_shape? hshape]
    refine ⟨h.draw (hplane plane (DrawOp.plane?_of_shape? hshape)) hlt hshape, ?_⟩
    obtain ⟨z, -, hdraw⟩ := c.draw_of_lt shape (h.size_planes ▸ hlt)
    rw [hdraw]

theorem apply_misfit (hmisfit : op.misfit? revision data planes.size = some fault) :
    c.apply revision data op = c.stop fault := by
  obtain ⟨plane, shape, hshape, hle, rfl⟩ := DrawOp.misfit?_eq_some hmisfit
  rw [c.apply_of_shape? hshape, c.draw_of_le (h.size_planes ▸ hle), h.size_planes]

/-- A run carries out the operations in front of the first fault, and reports this fault:
that of a missing plane or, behind all operations, that of the stream. -/
theorem run (steps : List Decoder.Step)
    (hplane : ∀ op ∈ Decoder.leadingOps steps, ∀ plane, op.plane? = some plane →
      plane.toNat < 8)
    (hfault : c.report.fault = none) :
    Follows revision data placement planes
        (ops ++ (Decoder.leadingOps steps).takeWhile fun op =>
          (op.misfit? revision data planes.size).isNone)
        (c.run revision data steps) ∧
      (c.run revision data steps).report.fault =
        ((Decoder.leadingOps steps).findSome? (DrawOp.misfit? revision data planes.size)).or
          (Decoder.endingFault? steps) := by
  -- the operations done so far grow with the canvas
  induction steps generalizing c ops with
  | nil =>
    rw [Decoder.leadingOps, List.takeWhile_nil, List.append_nil]
    exact ⟨h, hfault⟩
  | cons s rest ih =>
    have hsaid : Follows revision data placement planes ops
        { c with notices := c.notices ++ s.notices } :=
      h.congr _ c.report.endOffset c.report.fault
    rcases houtcome : s.outcome with _ | fault | op
    · simp only [Canvas.run, Decoder.leadingOps, Decoder.endingFault?, houtcome,
        List.takeWhile_nil, List.append_nil]
      exact ⟨hsaid.congr _ _ _, hfault⟩
    · simp only [Canvas.run, Decoder.leadingOps, Decoder.endingFault?, houtcome,
        List.takeWhile_nil, List.append_nil]
      exact ⟨hsaid.stop fault, fault_stop ..⟩
    · simp only [Canvas.run, Decoder.leadingOps, Decoder.endingFault?, houtcome] at hplane ⊢
      have hop := hplane op List.mem_cons_self
      have hrest := fun op hmem => hplane op (List.mem_cons_of_mem _ hmem)
      cases hmisfit : op.misfit? revision data planes.size with
      | none =>
        obtain ⟨happly, hkept⟩ := hsaid.apply hop hmisfit
        have hnone := hkept.trans hfault
        obtain ⟨hfollows, hend⟩ := ih happly hrest hnone
        rw [if_neg (not_isStopped hnone happly.escaped), List.takeWhile_cons, hmisfit,
          Option.isNone_none, if_pos rfl, List.findSome?_cons, hmisfit]
        rw [List.append_assoc] at hfollows
        exact ⟨hfollows, hend⟩
      | some fault =>
        rw [hsaid.apply_misfit hmisfit, if_pos (isStopped_stop ..), List.takeWhile_cons, hmisfit,
          if_neg (by simp), List.append_nil, List.findSome?_cons, hmisfit]
        exact ⟨hsaid.stop fault, fault_stop ..⟩

end Follows

end Canvas

/-! ## The call -/

namespace Renderer

variable (r : Renderer)

/-- The operations that a frame carries out: those in front of the first that needs a
missing plane, none for a frame that the script does not have. -/
def carriedOut (frame : Nat) : List DrawOp :=
  match r.script.decoder r.revision frame with
  | .error _ => []
  | .ok d =>
    d.ops.takeWhile fun op => (op.misfit? r.revision r.script.data r.planes.size).isNone

def fault? (frame : Nat) : Option FrameFault :=
  match r.script.decoder r.revision frame with
  | .error _ => none
  | .ok d =>
    (d.ops.findSome? (DrawOp.misfit? r.revision r.script.data r.planes.size)).or d.fault?

def shapesInto (frame n : Nat) : List Polygon :=
  DrawOp.shapesInto r.revision r.script.data n (r.carriedOut frame)

variable {r} {frame : Nat}

theorem exists_start_of_decoder {d : Decoder}
    (h : r.script.decoder r.revision frame = .ok d) :
    ∃ start, d = Decoder.ofStart r.revision r.script.data start := by
  unfold Script.decoder at h
  cases hoffset : r.script.frameOffset frame with
  | error =>
    rw [hoffset] at h
    cases h
  | ok start =>
    rw [hoffset] at h
    cases h
    exact ⟨start, rfl⟩

theorem revision_of_decoder {d : Decoder} (h : r.script.decoder r.revision frame = .ok d) :
    d.revision = r.revision := by
  obtain ⟨start, rfl⟩ := exists_start_of_decoder h
  rfl

theorem reads_of_mem_carriedOut {op : DrawOp} (h : op ∈ r.carriedOut frame) :
    ∃ offset stop, DrawOp.Reads r.revision r.script.data offset op stop := by
  unfold carriedOut at h
  split at h
  · cases h
  case h_2 d hdecoder =>
    obtain ⟨start, rfl⟩ := exists_start_of_decoder hdecoder
    exact Decoder.reads_of_mem_ops (List.takeWhile_subset _ h)

theorem plane_lt_of_decoder (hr : r.revision.Consistent) {d : Decoder}
    (h : r.script.decoder r.revision frame = .ok d) {op : DrawOp} (hop : op ∈ d.ops)
    {plane : UInt8} (hplane : op.plane? = some plane) :
    plane.toNat < r.revision.planeCount := by
  rw [← revision_of_decoder h] at hr ⊢
  exact Decoder.plane_lt_of_mem_ops hr hop hplane

theorem misfit?_of_decoder (hr : r.revision.Consistent)
    (hsize : r.revision.planeCount ≤ r.planes.size) {d : Decoder}
    (h : r.script.decoder r.revision frame = .ok d) {op : DrawOp} (hop : op ∈ d.ops) :
    op.misfit? r.revision r.script.data r.planes.size = none := by
  refine DrawOp.misfit?_eq_none_iff.mpr fun plane shape hshape => ?_
  have hlt := plane_lt_of_decoder hr h hop (DrawOp.plane?_of_shape? hshape)
  exact Nat.lt_of_lt_of_le hlt hsize

theorem plane_lt_of_mem_carriedOut (hr : r.revision.Consistent) {op : DrawOp}
    (h : op ∈ r.carriedOut frame) {plane : UInt8} (hplane : op.plane? = some plane) :
    plane.toNat < r.revision.planeCount := by
  unfold carriedOut at h
  split at h
  · cases h
  case h_2 d hdecoder =>
    exact plane_lt_of_decoder hr hdecoder (List.takeWhile_subset _ h) hplane

theorem lt_of_shapesInto_ne_nil (hr : r.revision.Consistent) {n : Nat}
    (h : r.shapesInto frame n ≠ []) : n < r.revision.planeCount := by
  obtain ⟨op, hop, plane, shape, hshape, rfl⟩ := DrawOp.shapesInto_ne_nil_iff.mp h
  exact plane_lt_of_mem_carriedOut hr hop (DrawOp.plane?_of_shape? hshape)

theorem frameOffset_of_lt (h : frame < r.frameCount) :
    ∃ offset, r.script.frameOffset frame = .ok offset := by
  have hsize : frame < r.script.offsets.size := h
  refine ⟨r.script.offsets[frame], ?_⟩
  rw [Script.frameOffset, Array.getElem?_eq_getElem hsize]

theorem frameOffset_of_le (h : r.frameCount ≤ frame) :
    r.script.frameOffset frame = .error (.frameIndex frame r.frameCount) := by
  rw [Script.frameOffset, Array.getElem?_eq_none h]
  rfl

theorem draw_of_le (h : r.frameCount ≤ frame) :
    r.draw frame = ⟨r, .error (.frameIndex frame r.frameCount), []⟩ := by
  rw [draw, frameOffset_of_le h]

theorem draw_of_lt (hr : r.revision.Consistent) (h : frame < r.frameCount) :
    ∃ c : Canvas,
      c.Follows r.revision r.script.data r.rasterizer.placement r.planes (r.carriedOut frame) ∧
      c.report.fault = r.fault? frame ∧
      r.draw frame = ⟨{ r with planes := c.planes, rasterizer := c.rasterizer }, .ok c.report,
        c.notices ++ [⟨.debug, .renderer, c.report.text⟩]⟩ := by
  obtain ⟨offset, hoffset⟩ := frameOffset_of_lt h
  have hdecoder := Script.decoder_of_frameOffset r.revision hoffset
  generalize hd : Decoder.ofStart r.revision r.script.data offset = d at hdecoder
  have hplane : ∀ op ∈ Decoder.leadingOps d.steps, ∀ plane, op.plane? = some plane →
      plane.toNat < 8 := by
    intro op hop plane hsome
    rw [Decoder.leadingOps_steps] at hop
    have hlt := plane_lt_of_decoder hr hdecoder hop hsome
    have hle : r.revision.planeCount ≤ 4 := hr.planeCount_le
    omega
  obtain ⟨hfollows, hfault⟩ :=
    (Canvas.follows_start r.revision r.script.data r.planes r.rasterizer frame offset).run
      d.steps hplane rfl
  rw [Decoder.leadingOps_steps, List.nil_append] at hfollows
  rw [Decoder.leadingOps_steps, Decoder.endingFault?_steps] at hfault
  generalize hc : Canvas.run _ _ _ _ = c at hfollows hfault
  refine ⟨c, ?_, ?_, ?_⟩
  · rw [carriedOut, hdecoder]
    exact hfollows
  · rw [fault?, hdecoder]
    exact hfault
  · rw [draw, hoffset]
    dsimp only
    rw [hd, hc, hfollows.escaped]

theorem carriedOut_of_le (h : r.frameCount ≤ frame) : r.carriedOut frame = [] := by
  unfold carriedOut Script.decoder
  rw [frameOffset_of_le h]
  rfl

theorem renderer_draw (r : Renderer) (frame : Nat) :
    (r.draw frame).renderer =
      { r with
        planes := (r.draw frame).renderer.planes
        rasterizer := (r.draw frame).renderer.rasterizer } := by
  unfold draw
  split
  · rfl
  · dsimp only
    split <;> rfl

theorem placement_draw (hr : r.revision.Consistent) (frame : Nat) :
    (r.draw frame).renderer.rasterizer.placement = r.rasterizer.placement := by
  rcases Nat.lt_or_ge frame r.frameCount with hlt | hge
  · obtain ⟨c, hfollows, -, hdraw⟩ := draw_of_lt hr hlt
    rw [hdraw]
    exact hfollows.placement_eq
  · rw [draw_of_le hge]

/-- Every plane is drawn anew with its shapes of the frame; a refused frame has none. -/
theorem getElem?_planes_draw (hr : r.revision.Consistent) (frame n : Nat) :
    (r.draw frame).renderer.planes.planes[n]? =
      r.planes.planes[n]?.map (Plane.redraw r.rasterizer.placement (r.shapesInto frame n)) := by
  rcases Nat.lt_or_ge frame r.frameCount with hlt | hge
  · obtain ⟨c, hfollows, -, hdraw⟩ := draw_of_lt hr hlt
    rw [hdraw]
    exact hfollows.getElem?_planes n
  · have hnone : r.shapesInto frame n = [] := by
      rw [shapesInto, carriedOut_of_le hge]
      rfl
    rw [draw_of_le hge, hnone]
    cases r.planes.planes[n]? <;> rfl

/-- Two frames. The first draws a triangle into plane 0 and an empty shape into plane 1 and
passes over a tween to nowhere; the second draws into plane 0 alone and breaks off. -/
def twoFrames (planes : PlaneStore) : Renderer where
  script :=
    { offsets := #[0, 18]
      data := #[3, 0xD2, 3, 0, 0, 0, 3, 3, 0, 0xD3, 0, 0xE8, 0, 0, 0, 0, 1, 2,
        2, 0xD2, 3, 0, 0, 2, 0, 2, 2, 0xD5, 5, 0]
      offset_lt := by decide }
  revision := .fourPlane
  planes := planes
  palette := .layered
  rasterizer := .ofPlacement .identity
  compositor := .empty
  framebuffer := .black 4 4

end Renderer

end Bitplane
