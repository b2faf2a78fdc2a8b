import Bitplane.Proofs.Fill.Parity
import Bitplane.Proofs.Renderer.Lifetime

/-! # Persistence over runs

What the planes and the rasterizer hold has no influence on the drawing of a frame: two
canvases that differ in buffers alone are told apart by nothing but these. So a plane
shows what the last frame to draw into it would have shown on a dark plane.
-/

namespace Bitplane

def PlaneStore.geometries (s : PlaneStore) : Array Plane.Geometry := s.planes.map Plane.geometry

namespace PlaneStore

theorem geometries_modify (s : PlaneStore) (n : Nat) {f : Plane → Plane}
    (hf : ∀ p, (f p).geometry = p.geometry) :
    geometries ⟨s.planes.modify n f⟩ = s.geometries := by
  refine Array.ext_getElem? fun i => ?_
  simp only [geometries, Array.getElem?_map, Array.getElem?_modify]
  split
  case isTrue =>
    rw [Option.map_map]
    exact Option.map_congr fun p _ => hf p
  case isFalse => rfl

variable {s t : PlaneStore} (h : s.geometries = t.geometries)
include h

theorem size_eq_of_geometries : s.size = t.size := by
  have hsize := congrArg Array.size h
  simp only [geometries, Array.size_map] at hsize
  exact hsize

theorem bind_eq_of_geometries {α : Type} {f : Plane → Option α}
    (hf : ∀ p q : Plane, p.geometry = q.geometry → f p = f q) (n : Nat) :
    s.planes[n]?.bind f = t.planes[n]?.bind f := by
  have hn := congrArg (fun g : Array Plane.Geometry => g[n]?) h
  simp only [geometries, Array.getElem?_map] at hn
  cases hs : s.planes[n]? with
  | none =>
    rw [hs, Option.map_none, eq_comm, Option.map_eq_none_iff] at hn
    rw [hn]
  | some p =>
    rw [hs, Option.map_some, eq_comm, Option.map_eq_some_iff] at hn
    obtain ⟨q, hq, hgeometry⟩ := hn
    rw [hq]
    exact hf p q hgeometry.symm

end PlaneStore

namespace Canvas

/-- Canvases that differ in the buffers of their planes and rasterizers alone. -/
structure Alike (c d : Canvas) : Prop where
  geometries : c.planes.geometries = d.planes.geometries
  placement : c.rasterizer.placement = d.rasterizer.placement
  report : c.report = d.report
  notices : c.notices = d.notices
  escaped : c.escaped = d.escaped

namespace Alike

variable {c d : Canvas} (revision : Revision) (data : Bytes) (h : Alike c d)
include h

theorem isStopped : c.isStopped = d.isStopped := by
  rw [Canvas.isStopped, Canvas.isStopped, h.report, h.escaped]

theorem stop (fault : FrameFault) : Alike (c.stop fault) (d.stop fault) := by
  rw [stop_eq, stop_eq]
  exact ⟨h.geometries, h.placement, by rw [h.report], by rw [h.report, h.notices], h.escaped⟩

theorem skip : Alike c.skip d.skip :=
  ⟨h.geometries, h.placement, by rw [Canvas.skip, Canvas.skip, h.report], h.notices, h.escaped⟩

theorem reject (offset : Nat) (fault : TweenFault) :
    Alike (c.reject offset fault) (d.reject offset fault) := by
  refine ⟨h.geometries, h.placement, ?_, ?_, h.escaped⟩
  · rw [Canvas.reject, Canvas.reject, Canvas.skip, Canvas.skip, h.report]
  · rw [Canvas.reject, Canvas.reject, h.report, h.notices]

theorem draw (plane : UInt8) (shape : Polygon) :
    Alike (c.draw plane shape) (d.draw plane shape) := by
  have hsize := PlaneStore.size_eq_of_geometries h.geometries
  by_cases hlt : plane.toNat < c.planes.size
  · obtain ⟨z, hz, hc⟩ := c.draw_of_lt shape hlt
    obtain ⟨w, hw, hd⟩ := d.draw_of_lt shape (hsize ▸ hlt)
    rw [hc, hd]
    refine ⟨?_, hz.trans (h.placement.trans hw.symm), by rw [h.report], ?_, h.escaped⟩
    · rw [PlaneStore.geometries_modify _ _ fun p => p.geometry_fill ..,
        PlaneStore.geometries_modify _ _ fun p => p.geometry_fill .., h.geometries]
    · rw [h.notices, PlaneStore.bind_eq_of_geometries h.geometries fun p q hpq =>
          Rasterizer.fillNotice?_congr rfl hpq shape.vertices,
        funext fun p => Rasterizer.fillNotice?_congr h.placement rfl shape.vertices]
  · have hle := Nat.le_of_not_lt hlt
    rw [c.draw_of_le hle, d.draw_of_le (hsize ▸ hle), hsize]
    exact h.stop _

theorem apply (op : DrawOp) :
    Alike (c.apply revision data op) (d.apply revision data op) := by
  cases op with
  | polygon _ _ plane shape => exact h.draw plane shape
  | tween offset _ plane ref =>
    simp only [Canvas.apply]
    cases Tween.polygon revision data ref with
    | ok shape => exact h.draw plane shape
    | error fault => exact h.reject offset fault
  | skip => exact h.skip

theorem run (steps : List Decoder.Step) :
    Alike (c.run revision data steps) (d.run revision data steps) := by
  induction steps generalizing c d with
  | nil => exact h
  | cons s rest ih =>
    have hsaid : Alike { c with notices := c.notices ++ s.notices }
        { d with notices := d.notices ++ s.notices } :=
      ⟨h.geometries, h.placement, h.report, by rw [h.notices], h.escaped⟩
    rcases houtcome : s.outcome with _ | fault | op
    · simp only [Canvas.run, houtcome]
      exact ⟨hsaid.geometries, hsaid.placement, by rw [h.report], hsaid.notices, hsaid.escaped⟩
    · simp only [Canvas.run, houtcome]
      exact hsaid.stop fault
    · simp only [Canvas.run, houtcome]
      have happly := hsaid.apply revision data op
      rw [happly.isStopped]
      split
      · exact happly
      · exact ih happly

end Alike

end Canvas

namespace Renderer

variable {r s : Renderer} {frame : Nat}

/-- Renderers that differ in the buffers of their planes and rasterizers alone. -/
structure Alike (r s : Renderer) : Prop where
  eq_with : s = { r with planes := s.planes, rasterizer := s.rasterizer }
  placement : r.rasterizer.placement = s.rasterizer.placement
  geometries : r.planes.geometries = s.planes.geometries

theorem Alike.draw (h : Alike r s) (frame : Nat) :
    (r.draw frame).result = (s.draw frame).result ∧
      (r.draw frame).notices = (s.draw frame).notices := by
  obtain ⟨heq, hplacement, hgeometries⟩ := h
  rw [heq]
  unfold Renderer.draw
  dsimp only
  split
  case h_1 => exact ⟨rfl, rfl⟩
  case h_2 offset _ =>
    have hstart : Canvas.Alike ⟨r.planes, r.rasterizer, Report.start frame offset, [], none⟩
        ⟨s.planes, s.rasterizer, Report.start frame offset, [], none⟩ :=
      ⟨hgeometries, hplacement, rfl, rfl, rfl⟩
    have hrun := hstart.run r.revision r.script.data
      (Decoder.ofStart r.revision r.script.data offset).steps
    rw [← hrun.escaped]
    split
    · exact ⟨rfl, hrun.notices⟩
    · rw [hrun.report, hrun.notices]
      exact ⟨rfl, rfl⟩

theorem Alike.shapesInto (h : Alike r s) (frame n : Nat) :
    r.shapesInto frame n = s.shapesInto frame n := by
  have hsize := PlaneStore.size_eq_of_geometries h.geometries
  rw [h.eq_with]
  unfold Renderer.shapesInto carriedOut
  rw [hsize]

theorem alike_draw (hr : r.revision.Consistent) (frame : Nat) :
    Alike r (r.draw frame).renderer := by
  refine ⟨renderer_draw r frame, (placement_draw hr frame).symm, Array.ext_getElem? fun n => ?_⟩
  simp only [PlaneStore.geometries, Array.getElem?_map]
  rw [getElem?_planes_draw hr, Option.map_map]
  exact Option.map_congr fun p _ => (p.geometry_redraw ..).symm

theorem Alike.consistent (h : Alike r s) (hr : r.revision.Consistent) :
    s.revision.Consistent := by
  rw [h.eq_with]
  exact hr

theorem Alike.trans {t : Renderer} (hrs : Alike r s) (hst : Alike s t) : Alike r t := by
  refine ⟨?_, hrs.placement.trans hst.placement, hrs.geometries.trans hst.geometries⟩
  rw [hst.eq_with, hrs.eq_with]

theorem draw_again (hr : r.revision.Consistent) (frame : Nat) :
    ((r.draw frame).renderer.draw frame).renderer.planes = (r.draw frame).renderer.planes ∧
      ((r.draw frame).renderer.draw frame).result = (r.draw frame).result ∧
      ((r.draw frame).renderer.draw frame).notices = (r.draw frame).notices := by
  have halike := alike_draw hr frame
  obtain ⟨hresult, hnotices⟩ := halike.draw frame
  refine ⟨congrArg PlaneStore.mk (Array.ext_getElem? fun n => ?_), hresult.symm, hnotices.symm⟩
  rw [getElem?_planes_draw (halike.consistent hr), getElem?_planes_draw hr, Option.map_map,
    ← halike.placement, ← halike.shapesInto]
  refine Option.map_congr fun p _ => ?_
  rw [Function.comp_apply, p.redraw_redraw, ite_self]

/-! ## Runs -/

/-- Draws frames one after another; a frame that is refused changes nothing. -/
def drawAll (r : Renderer) (frames : List Nat) : Renderer :=
  frames.foldl (fun r frame => (r.draw frame).renderer) r

def touches (r : Renderer) (frame n : Nat) : Bool :=
  match (r.draw frame).result with
  | .ok report => report.touchedPlanes.contains n
  | .error _ => false

theorem touches_iff (hr : r.revision.Consistent) (n : Nat) :
    r.touches frame n ↔ r.shapesInto frame n ≠ [] := by
  unfold touches
  rcases Nat.lt_or_ge frame r.frameCount with hlt | hge
  · obtain ⟨c, hfollows, -, hdraw⟩ := draw_of_lt hr hlt
    rw [hdraw]
    dsimp only
    rw [List.contains_iff_mem, mem_touchedPlanes hr hfollows]
  · rw [draw_of_le hge, shapesInto, carriedOut_of_le hge]
    constructor
    · intro h
      cases h
    · intro h
      exact absurd rfl h

theorem Alike.touches (h : Alike r s) (frame n : Nat) : r.touches frame n = s.touches frame n := by
  rw [Renderer.touches, Renderer.touches, (h.draw frame).1]

/-- The shapes that plane `n` shows after frames: those of the last one to touch it. -/
def lastShapes (r : Renderer) (frames : List Nat) (n : Nat) : List Polygon :=
  match frames.reverse.find? (r.touches · n) with
  | some frame => r.shapesInto frame n
  | none => []

theorem lastShapes_cons (hr : r.revision.Consistent) (frame : Nat) (frames : List Nat) (n : Nat) :
    r.lastShapes (frame :: frames) n =
      if r.lastShapes frames n = [] then r.shapesInto frame n else r.lastShapes frames n := by
  -- seen from the end of the run, the first frame comes last
  unfold lastShapes
  rw [List.reverse_cons, List.find?_append]
  cases hfind : frames.reverse.find? (r.touches · n) with
  | some last =>
    have htouches := List.find?_some (p := fun frame => r.touches frame n) hfind
    rw [Option.some_or, if_neg ((touches_iff hr n).mp htouches)]
  | none =>
    rw [Option.none_or, if_pos rfl, List.find?_cons, List.find?_nil]
    cases htouched : r.touches frame n with
    | true => rfl
    | false =>
      have hnone : r.shapesInto frame n = [] := by
        refine Decidable.byContradiction fun hne => ?_
        rw [(touches_iff hr n).mpr hne] at htouched
        cases htouched
      exact hnone.symm

theorem Alike.lastShapes (h : Alike r s) (frames : List Nat) (n : Nat) :
    r.lastShapes frames n = s.lastShapes frames n := by
  unfold Renderer.lastShapes
  rw [funext fun frame => h.touches frame n, funext fun frame => h.shapesInto frame n]

theorem alike_drawAll (hr : r.revision.Consistent) (frames : List Nat) :
    Alike r (r.drawAll frames) := by
  induction frames generalizing r with
  | nil => exact ⟨rfl, rfl, rfl⟩
  | cons frame rest ih =>
    have halike := alike_draw hr frame
    exact halike.trans (ih (halike.consistent hr))

/-- After a run, each plane is drawn anew with the shapes of the last frame to touch it. -/
theorem getElem?_planes_drawAll (hr : r.revision.Consistent) (frames : List Nat) (n : Nat) :
    (r.drawAll frames).planes.planes[n]? =
      r.planes.planes[n]?.map (Plane.redraw r.rasterizer.placement (r.lastShapes frames n)) := by
  induction frames generalizing r with
  | nil =>
    have hid : Plane.redraw r.rasterizer.placement [] = id := funext fun p => p.redraw_nil _
    rw [drawAll, List.foldl_nil, lastShapes, List.reverse_nil, List.find?_nil, hid, Option.map_id]
    rfl
  | cons frame rest ih =>
    have halike := alike_draw hr frame
    have hcons : r.drawAll (frame :: rest) = (r.draw frame).renderer.drawAll rest := rfl
    rw [hcons, ih (halike.consistent hr), getElem?_planes_draw hr, Option.map_map,
      lastShapes_cons hr, ← halike.placement, ← halike.lastShapes]
    exact Option.map_congr fun p _ => p.redraw_redraw ..

theorem isDark_reset (r : Renderer) : ∀ p ∈ r.reset.planes.planes, p.IsDark := by
  intro p hp
  obtain ⟨q, -, rfl⟩ := Array.mem_map.mp hp
  exact q.isDark_clear

theorem lt_frameCount_of_touches {n : Nat} (h : r.touches frame n) : frame < r.frameCount := by
  refine Nat.lt_of_not_le fun hge => ?_
  rw [touches, draw_of_le hge] at h
  cases h

/-- After a reset, any run of frames leaves in each plane what the last frame to touch it
draws there right after a reset, and no light where no frame touches. To draw a frame
at once again changes neither the planes nor the report. -/
theorem drawAll_shows_last_touching_frame (r : Renderer) (hr : r.revision.validate = .ok ())
    (frames : List Nat) :
    (r.reset.drawAll frames).planes.size = r.planes.size ∧
      (∀ n (p : Plane), (r.reset.drawAll frames).planes.planes[n]? = some p →
        match frames.reverse.find? (r.reset.touches · n) with
        | some frame => frame < r.frameCount ∧
            (r.reset.draw frame).renderer.planes.planes[n]? = some p
        | none => p.IsDark) ∧
      ∀ frame,
        ((r.draw frame).renderer.draw frame).renderer.planes = (r.draw frame).renderer.planes ∧
        ((r.draw frame).renderer.draw frame).result = (r.draw frame).result ∧
        ((r.draw frame).renderer.draw frame).notices = (r.draw frame).notices := by
  have hconsistent := Revision.validate_eq_ok_iff.mp hr
  have hreset : r.reset.revision.Consistent := hconsistent
  have halike := alike_drawAll hreset frames
  refine ⟨?_, ?_, draw_again hconsistent⟩
  · rw [← PlaneStore.size_eq_of_geometries halike.geometries]
    exact Array.size_map
  · intro n p hp
    rw [getElem?_planes_drawAll hreset, lastShapes] at hp
    split
    case h_1 frame hfind =>
      have htouches := List.find?_some (p := fun frame => r.reset.touches frame n) hfind
      rw [hfind] at hp
      rw [getElem?_planes_draw hreset]
      have hlt : frame < r.reset.frameCount := lt_frameCount_of_touches htouches
      exact ⟨hlt, hp⟩
    case h_2 hfind =>
      rw [hfind] at hp
      obtain ⟨q, hq, rfl⟩ := Option.map_eq_some_iff.mp hp
      exact isDark_reset r q (Array.mem_of_getElem? hq)

/-- Plane 1 keeps the triangle that frame 0 drew, under a frame that is refused and one that
draws into plane 0 and breaks off. -/
theorem drawAll_twoFrames :
    let script : Script :=
      { offsets := #[0, 9]
        data := #[1, 0xD3, 3, 0, 0, 0, 3, 3, 0, 2, 0xD2, 3, 0, 0, 2, 0, 2, 2, 0xD5, 5, 0]
        offset_lt := by decide }
    let r := { twoFrames (.dark 4 4 4 4) with script := script }
    r.revision.validate = .ok () ∧
      ∃ p : Plane, (r.reset.drawAll [1, 0, 7, 1]).planes.planes[1]? = some p ∧
        (r.reset.draw 0).renderer.planes.planes[1]? = some p ∧ p.data[4]? = some 2 := by
  intro script r
  have hr : Revision.fourPlane.validate = .ok () := by rfl
  obtain ⟨hsize, hplanes, -⟩ := r.drawAll_shows_last_touching_frame hr [1, 0, 7, 1]
  have hfour : r.planes.size = 4 := by
    simp [r, twoFrames, PlaneStore.dark, PlaneStore.size]
  have hlt : 1 < (r.reset.drawAll [1, 0, 7, 1]).planes.planes.size := by
    rw [PlaneStore.size, hfour] at hsize
    omega
  have hplane := hplanes 1 _ (Array.getElem?_eq_getElem hlt)
  have hfind : [1, 0, 7, 1].reverse.find? (r.reset.touches · 1) = some 0 := by
    decide +kernel
  rw [hfind] at hplane
  have hdark : r.reset.planes.planes[1]? = some (Plane.dark 1 4 4 4).clear := by
    simp [r, reset, PlaneStore.clearAll, twoFrames, PlaneStore.dark]
  have hshapes : r.reset.shapesInto 0 1 = [⟨[⟨0, 0⟩, ⟨0, 3⟩, ⟨3, 0⟩]⟩] := by decide +kernel
  have hlit : ((Plane.dark 1 4 4 4).clear.redraw .identity
      [⟨[⟨0, 0⟩, ⟨0, 3⟩, ⟨3, 0⟩]⟩]).data[4]? = some 2 := by
    have hpixel := (Rasterizer.ofPlacement .identity).getElem?_fill_place
      (by decide : (Plane.dark 1 4 4 4).clear.clear.IsWhole) (by decide)
      [⟨0, 0⟩, ⟨0, 3⟩, ⟨3, 0⟩] (by decide : 0 < 4) (by decide : 1 < 4)
    rw [Rasterizer.fill_fst] at hpixel
    refine hpixel.trans ?_
    decide +kernel
  have hdrawn := getElem?_planes_draw (r := r.reset) (Revision.validate_eq_ok_iff.mp hr) 0 1
  rw [hplane.2, hdark, hshapes, Option.map_some, Option.some.injEq] at hdrawn
  exact ⟨hr, _, Array.getElem?_eq_getElem hlt, hplane.2, hdrawn ▸ hlit⟩

end Renderer

end Bitplane
