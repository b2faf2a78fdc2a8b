import Bitplane.Proofs.Renderer.Frame

/-! # The life of a plane within a frame

A frame that draws into a plane leaves there its own shapes and nothing else; a
plane that it does not draw into keeps its buffer. Either way the geometry stays.
-/

namespace Bitplane

def Report.touchedPlanes (report : Report) : List Nat := report.touched.toList.map UInt8.toNat

namespace Renderer

variable {r : Renderer} {c : Canvas} {frame : Nat}

theorem mem_touchedPlanes (hr : r.revision.Consistent)
    (h : c.Follows r.revision r.script.data r.rasterizer.placement r.planes (r.carriedOut frame))
    (n : Nat) : n ∈ c.report.touchedPlanes ↔ r.shapesInto frame n ≠ [] := by
  rw [Report.touchedPlanes, List.mem_map]
  constructor
  · rintro ⟨plane, hmem, rfl⟩
    exact (h.mem_touched plane).mp hmem
  · intro hshapes
    have hlt := lt_of_shapesInto_ne_nil hr hshapes
    have hle : r.revision.planeCount ≤ 4 := hr.planeCount_le
    have hn : (UInt8.ofNat n).toNat = n := by
      rw [UInt8.toNat_ofNat']
      omega
    refine ⟨UInt8.ofNat n, (h.mem_touched _).mpr ?_, hn⟩
    rw [hn]
    exact hshapes

/-- Drawing a frame that the script has leaves in each plane exactly the shapes that the
frame draws into it, or what the plane held if there are none; the report names the
planes drawn into. -/
theorem draw_redraws_touched_planes (r : Renderer) (hr : r.revision.validate = .ok ())
    {frame : Nat} (hframe : frame < r.frameCount) :
    ∃ report, (r.draw frame).result = .ok report ∧
      (r.draw frame).renderer.planes.size = r.planes.size ∧
      ∀ n (p : Plane), r.planes.planes[n]? = some p →
        ∃ q : Plane, (r.draw frame).renderer.planes.planes[n]? = some q ∧
          q.geometry = p.geometry ∧
          (r.shapesInto frame n ≠ [] → n ∈ report.touchedPlanes ∧
            ∀ z : Plane, z.IsDark → z.geometry = p.geometry →
              q = z.fillAll r.rasterizer.placement (r.shapesInto frame n)) ∧
          (r.shapesInto frame n = [] → n ∉ report.touchedPlanes ∧ q = p) := by
  have hconsistent := Revision.validate_eq_ok_iff.mp hr
  obtain ⟨c, hfollows, -, hdraw⟩ := draw_of_lt hconsistent hframe
  rw [hdraw]
  refine ⟨c.report, rfl, hfollows.size_planes, fun n p hp => ?_⟩
  have htouched := mem_touchedPlanes hconsistent hfollows n
  refine ⟨p.redraw r.rasterizer.placement (r.shapesInto frame n), ?_, p.geometry_redraw .., ?_, ?_⟩
  · rw [hfollows.getElem?_planes, hp]
    rfl
  · intro hshapes
    refine ⟨htouched.mpr hshapes, fun z hz hgeometry => ?_⟩
    rw [p.redraw_of_ne_nil _ hshapes, Plane.clear_eq_of_isDark hz hgeometry]
  · intro hnone
    refine ⟨fun hmem => htouched.mp hmem hnone, ?_⟩
    rw [hnone, p.redraw_nil]

/-- An empty shape clears its plane; a tween to nowhere touches none. -/
theorem draw_redraws_twoFrames :
    let r := twoFrames (.dark 4 4 4 4)
    r.revision.validate = .ok () ∧ 0 < r.frameCount ∧
      ∃ report, (r.draw 0).result = .ok report ∧ 0 ∈ report.touchedPlanes ∧
        1 ∈ report.touchedPlanes ∧ 2 ∉ report.touchedPlanes := by
  intro r
  have hr : Revision.fourPlane.validate = .ok () := by rfl
  have hframe : 0 < r.frameCount := by decide
  have hplane (n : Nat) (hn : n < 4) :
      r.planes.planes[n]? = some (Plane.dark (UInt8.ofNat n) 4 4 4) := by
    simp [r, twoFrames, PlaneStore.dark, hn]
  have hshapes : r.shapesInto 0 0 ≠ [] ∧ r.shapesInto 0 1 ≠ [] ∧ r.shapesInto 0 2 = [] := by
    decide +kernel
  obtain ⟨report, hreport, -, hplanes⟩ := r.draw_redraws_touched_planes hr hframe
  obtain ⟨_, _, _, htriangle, _⟩ := hplanes 0 _ (hplane 0 (by decide))
  obtain ⟨_, _, _, hempty, _⟩ := hplanes 1 _ (hplane 1 (by decide))
  obtain ⟨_, _, _, _, hnothing⟩ := hplanes 2 _ (hplane 2 (by decide))
  exact ⟨hr, hframe, report, hreport, (htriangle hshapes.1).1, (hempty hshapes.2.1).1,
    (hnothing hshapes.2.2).1⟩

end Renderer

end Bitplane
