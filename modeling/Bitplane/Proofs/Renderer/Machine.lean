import Bitplane.Proofs.Fill.Machine
import Bitplane.Proofs.Renderer.Frame
import Bitplane.Proofs.Tween.Motion

/-! # Drawing on a machine

A frame hands polygons to the rasterizer that come from records or from tweens between them,
some far outside of the records when a tween runs past its end. Here tweens are blended in 32
bits as well, and a frame is drawn with them and with fills on a machine. As long as the
placement is moderate, no word is too small for it.
-/

namespace Bitplane

/-- The coordinates that blending can reach: a byte, and another one 255 times as far. -/
structure Vertex.InReach (v : Vertex) : Prop where
  y_ge : -64770 ≤ v.y
  y_le : v.y ≤ 65025
  x_ge : -64770 ≤ v.x
  x_le : v.x ≤ 65025

structure Placement.Moderate (p : Placement) : Prop where
  one_le_scale : 1 ≤ p.scale
  scale_le : p.scale ≤ 8192
  x_ge : -2 ^ 29 ≤ p.x
  x_le : p.x ≤ 2 ^ 29
  y_ge : -2 ^ 29 ≤ p.y
  y_le : p.y ≤ 2 ^ 29

namespace Machine

/-! ## Tweens -/

section Tweens

variable (t tMax : UInt8)

def blend (a b : Int) : Option Int := do
  let start ← word 31 (a * tMax.toNat)
  let way ← word 31 (t.toNat * (← word 31 (b - a)))
  let sum ← word 31 (start + way)
  if tMax = 0 then none else word 31 (sum / tMax.toNat)

def blendVertex (a b : Vertex) : Option Vertex :=
  return ⟨← blend t tMax a.y b.y, ← blend t tMax a.x b.x⟩

def between (a b : Polygon) : Option Polygon := do
  let points := max a.size b.size
  let vertices ← (List.range points).mapM fun i => do
    let v ← a.vertices[i * a.size / points]?
    let w ← b.vertices[i * b.size / points]?
    blendVertex t tMax v w
  return ⟨vertices⟩

def tween (revision : Revision) (data : Bytes) (ref : TweenRef) :
    Option (Except TweenFault Polygon) :=
  if ref.tMax = 0 then return .error .zeroDuration
  else match Tween.resolve revision data ref.fromOffset with
    | .error fault => return .error fault
    | .ok a => match Tween.resolve revision data ref.toOffset with
      | .error fault => return .error fault
      | .ok b =>
        if a.size = 0 ∧ 0 < b.size then return .error (.emptyShape ref.fromOffset)
        else if 0 < a.size ∧ b.size = 0 then return .error (.emptyShape ref.toOffset)
        else return .ok (← between ref.t ref.tMax a b)

end Tweens

/-! ## Frames -/

section Frames

variable (revision : Revision) (data : Bytes)

def drawShape (c : Canvas) (plane : UInt8) (shape : Polygon) : Option Canvas :=
  match c.planes.get plane with
  | .error fault => return c.stop fault
  | .ok target => do
    let (filled, z) ← fill c.rasterizer target shape.vertices (!c.report.touched.contains plane)
    return { c.draw plane shape with planes := c.planes.set plane filled, rasterizer := z }

def apply (c : Canvas) : DrawOp → Option Canvas
  | .polygon _ _ plane shape => drawShape c plane shape
  | .tween offset _ plane ref => do
    match ← tween revision data ref with
    | .ok shape => drawShape c plane shape
    | .error fault => return c.reject offset fault
  | .skip .. => return c.skip

def run : List Decoder.Step → Canvas → Option Canvas
  | [], c => return c
  | s :: rest, c =>
    let c := { c with notices := c.notices ++ s.notices }
    match s.outcome with
    | none => return { c with report := { c.report with endOffset := s.after.endOffset? } }
    | some (.error fault) => return c.stop fault
    | some (.ok op) => do
      let c ← apply revision data c op
      if c.isStopped then return c else run rest c

def draw (r : Renderer) (frame : Nat) : Option Renderer.Drawn :=
  match r.script.frameOffset frame with
  | .error fault => return ⟨r, .error fault, []⟩
  | .ok offset => do
    let decoder := Decoder.ofStart r.revision r.script.data offset
    let canvas ← run r.revision r.script.data decoder.steps
      ⟨r.planes, r.rasterizer, Report.start frame offset, [], none⟩
    let renderer := { r with planes := canvas.planes, rasterizer := canvas.rasterizer }
    match canvas.escaped with
    | some fault => return ⟨renderer, .error fault, canvas.notices⟩
    | none => return ⟨renderer, .ok canvas.report,
        canvas.notices ++ [⟨.debug, .renderer, canvas.report.text⟩]⟩

end Frames

/-! ## Coordinates within reach -/

section Reach

variable {t tMax : UInt8} {a b : Int} {v w : Vertex} {p : Placement}

theorem ediv_within {k n : Int} (hn : 0 < n) : min 0 k ≤ k / n ∧ k / n ≤ max 0 k := by
  rcases Int.le_total 0 k with hk | hk
  · rw [min_eq_left hk, max_eq_right hk]
    exact ⟨Int.ediv_nonneg hk hn.le, Int.ediv_le_self n hk⟩
  · rw [min_eq_right hk, max_eq_left hk]
    refine ⟨(Int.le_ediv_iff_mul_le hn).mpr ?_, Int.ediv_le_of_le_mul hn (by omega)⟩
    exact (Int.mul_le_mul_of_nonpos_left hk (show 1 ≤ n by omega)).trans_eq (Int.mul_one k)

theorem way_within (t : UInt8) (k : Int) :
    min 0 (255 * k) ≤ t.toNat * k ∧ t.toNat * k ≤ max 0 (255 * k) := by
  have ht : (t.toNat : Int) ≤ 255 := by
    have := t.toNat_lt
    omega
  rcases Int.le_total 0 k with hk | hk
  · have hle := Int.mul_le_mul_of_nonneg_right ht hk
    have hnonneg := Int.mul_nonneg (Int.natCast_nonneg t.toNat) hk
    omega
  · have hle := Int.mul_le_mul_of_nonpos_right ht hk
    have hnonpos := Int.mul_nonpos_of_nonneg_of_nonpos (Int.natCast_nonneg t.toNat) hk
    omega

theorem blend_within (ht : tMax ≠ 0) (ha : 0 ≤ a ∧ a ≤ 255) (hb : 0 ≤ b ∧ b ≤ 255) :
    -64770 ≤ Tween.blend t tMax a b ∧ Tween.blend t tMax a b ≤ 65025 := by
  have hpos : (0 : Int) < tMax.toNat := by
    have := Tween.toNat_ne_zero ht
    omega
  have hway := way_within t (b - a)
  have hquotient := ediv_within (k := t.toNat * (b - a)) hpos
  rw [Tween.blend_eq ht]
  omega

theorem blend_eq (ht : tMax ≠ 0) (ha : 0 ≤ a ∧ a ≤ 255) (hb : 0 ≤ b ∧ b ≤ 255) :
    blend t tMax a b = some (Tween.blend t tMax a b) := by
  have hstart := way_within tMax a
  have hway := way_within t (b - a)
  have hwithin := blend_within (t := t) ht ha hb
  rw [Int.mul_comm (tMax.toNat : Int)] at hstart
  have hfits : Fits 31 (a * tMax.toNat) ∧ Fits 31 (b - a) ∧ Fits 31 (t.toNat * (b - a)) ∧
      Fits 31 (a * tMax.toNat + t.toNat * (b - a)) := by
    simp only [Fits]
    omega
  have hresult : Fits 31 (Tween.blend t tMax a b) := ⟨by omega, by omega⟩
  simp only [blend, word_eq hfits.1, word_eq hfits.2.1, word_eq hfits.2.2.1,
    word_eq hfits.2.2.2, Option.bind_eq_bind, Option.bind_some, if_neg ht]
  exact word_eq hresult

theorem blendVertex_eq (ht : tMax ≠ 0) (hv : v.InBytes) (hw : w.InBytes) :
    blendVertex t tMax v w = some (Tween.blendVertex t tMax v w) := by
  obtain ⟨hvy, hvy', hvx, hvx'⟩ := hv
  obtain ⟨hwy, hwy', hwx, hwx'⟩ := hw
  simp only [blendVertex, blend_eq ht ⟨hvy, hvy'⟩ ⟨hwy, hwy'⟩, blend_eq ht ⟨hvx, hvx'⟩ ⟨hwx, hwx'⟩,
    Option.bind_eq_bind, Option.bind_some]
  rfl

theorem inReach_blendVertex (ht : tMax ≠ 0) (hv : v.InBytes) (hw : w.InBytes) :
    (Tween.blendVertex t tMax v w).InReach := by
  obtain ⟨hvy, hvy', hvx, hvx'⟩ := hv
  obtain ⟨hwy, hwy', hwx, hwx'⟩ := hw
  obtain ⟨hy, hy'⟩ := blend_within (t := t) ht ⟨hvy, hvy'⟩ ⟨hwy, hwy'⟩
  obtain ⟨hx, hx'⟩ := blend_within (t := t) ht ⟨hvx, hvx'⟩ ⟨hwx, hwx'⟩
  exact ⟨hy, hy', hx, hx'⟩

theorem inReach_of_inBytes (h : v.InBytes) : v.InReach := by
  obtain ⟨hy, hy', hx, hx'⟩ := h
  exact ⟨by omega, by omega, by omega, by omega⟩

theorem placeable (hp : p.Moderate) (hv : v.InReach) : Placeable p v := by
  obtain ⟨hscale, hscale', hpx, hpx', hpy, hpy'⟩ := hp
  obtain ⟨hy, hy', hx, hx'⟩ := hv
  have hscaledY := mul_within (s := 65025) (t := 8192) (a := v.y) (b := p.scale)
    ⟨by omega, hy'⟩ ⟨by omega, hscale'⟩
  have hscaledX := mul_within (s := 65025) (t := 8192) (a := v.x) (b := p.scale)
    ⟨by omega, hx'⟩ ⟨by omega, hscale'⟩
  refine ⟨⟨by omega, by omega⟩, ⟨by omega, by omega⟩, ?_⟩
  simp only [Vertex.Near, Placement.apply]
  omega

end Reach

/-! ## Results that are there -/

section Tweens

variable {revision : Revision} {data : Bytes} {ref : TweenRef} {t tMax : UInt8} {a b : Polygon}

theorem between_eq (ht : tMax ≠ 0) (ha : a.FitsRecord) (hb : b.FitsRecord)
    (hempty : a.size = 0 ↔ b.size = 0) :
    between t tMax a b = some (Tween.between t tMax a b) := by
  have hsize : max a.size b.size = (Tween.between t tMax a b).vertices.length :=
    (Tween.size_between hempty t tMax).symm
  have hvertices : (List.range (max a.size b.size)).mapM (fun i => do
      let v ← a.vertices[i * a.size / max a.size b.size]?
      let w ← b.vertices[i * b.size / max a.size b.size]?
      blendVertex t tMax v w) = some ((Tween.between t tMax a b).vertices.map id) := by
    conv_lhs => arg 2; rw [hsize]
    refine mapM_range_eq_some_map fun i u hu => ?_
    have hi : i < max a.size b.size := hsize ▸ (List.getElem?_eq_some_iff.mp hu).1
    obtain ⟨v, w, hv, hw, hvertex⟩ := Tween.exists_getElem?_between hempty hi
    obtain rfl := Option.some.inj (hu.symm.trans (hvertex t tMax))
    simp only [hv, hw, Option.bind_eq_bind, Option.bind_some, id_eq]
    exact blendVertex_eq ht (ha.inBytes v (List.mem_of_getElem? hv))
      (hb.inBytes w (List.mem_of_getElem? hw))
  unfold between
  dsimp only
  rw [hvertices, List.map_id]
  rfl

theorem tween_eq (revision : Revision) (data : Bytes) (ref : TweenRef) :
    tween revision data ref = some (Tween.polygon revision data ref) := by
  rw [tween, Tween.polygon]
  by_cases ht : ref.tMax = 0
  · rw [if_pos ht, if_pos ht]
    rfl
  · rw [if_neg ht, if_neg ht]
    cases ha : Tween.resolve revision data ref.fromOffset with
    | error fault => rfl
    | ok a =>
      cases hb : Tween.resolve revision data ref.toOffset with
      | error fault => rfl
      | ok b =>
        simp only [Bind.bind, Except.bind]
        by_cases hsource : a.size = 0 ∧ 0 < b.size
        · rw [if_pos hsource, if_pos hsource]
          rfl
        by_cases htarget : 0 < a.size ∧ b.size = 0
        · rw [if_neg hsource, if_neg hsource, if_pos htarget, if_pos htarget]
          rfl
        have ha' := (Tween.resolve_eq_ok_iff.mp ha).fitsRecord
        have hb' := (Tween.resolve_eq_ok_iff.mp hb).fitsRecord
        rw [if_neg hsource, if_neg hsource, if_neg htarget, if_neg htarget,
          between_eq ht ha' hb' (by omega)]
        rfl

theorem inReach_of_polygon {shape : Polygon} (h : Tween.polygon revision data ref = .ok shape) :
    ∀ v ∈ shape.vertices, v.InReach := by
  obtain ⟨ht, a, b, ha, hb, hempty, rfl⟩ := Tween.polygon_eq_ok_iff.mp h
  intro u hu
  obtain ⟨v, hv, w, hw, rfl⟩ := Tween.exists_of_mem_between hempty hu
  exact inReach_blendVertex ht (ha.fitsRecord.inBytes v hv) (hb.fitsRecord.inBytes w hw)

end Tweens

section Frames

variable {revision : Revision} {data : Bytes} {c : Canvas} {op : DrawOp} {plane : UInt8}
  {shape : Polygon} {offset stop : Nat}

theorem inReach_of_shape? (hreads : op.Reads revision data offset stop)
    (h : op.shape? revision data = some (plane, shape)) : ∀ v ∈ shape.vertices, v.InReach := by
  cases hreads with
  | polygon _ _ hread =>
    cases h
    exact fun v hv => inReach_of_inBytes ((Polygon.fitsRecord_of_read hread).inBytes v hv)
  | @tween _ _ _ ref =>
    simp only [DrawOp.shape?] at h
    split at h
    case h_1 hpolygon =>
      cases h
      exact inReach_of_polygon hpolygon
    case h_2 => cases h
  | ignored => cases h
  | unknown => cases h

theorem drawShape_eq (h : ∀ v ∈ shape.vertices, Placeable c.rasterizer.placement v)
    (plane : UInt8) : drawShape c plane shape = some (c.draw plane shape) := by
  unfold drawShape Canvas.draw
  cases c.planes.get plane with
  | error fault => rfl
  | ok target =>
    simp only [fill_eq h, Option.bind_eq_bind, Option.bind_some]
    rfl

theorem apply_eq (hp : c.rasterizer.placement.Moderate)
    (hreads : op.Reads revision data offset stop) :
    apply revision data c op = some (c.apply revision data op) := by
  have hshape {plane : UInt8} {shape : Polygon}
      (h : op.shape? revision data = some (plane, shape)) :
      drawShape c plane shape = some (c.draw plane shape) :=
    drawShape_eq (fun v hv => placeable hp (inReach_of_shape? hreads h v hv)) plane
  cases op with
  | polygon _ _ plane shape => exact hshape rfl
  | tween offset _ plane ref =>
    simp only [apply, tween_eq, Option.bind_eq_bind, Option.bind_some, Canvas.apply]
    cases hpolygon : Tween.polygon revision data ref with
    | ok shape => exact hshape (by simp only [DrawOp.shape?, hpolygon])
    | error fault => rfl
  | skip => rfl

theorem run_eq {steps : List Decoder.Step} (hp : c.rasterizer.placement.Moderate)
    (hreads : ∀ s ∈ steps, ∀ op, s.outcome = some (.ok op) →
      ∃ offset stop, op.Reads revision data offset stop) :
    run revision data steps c = some (c.run revision data steps) := by
  induction steps generalizing c with
  | nil => rfl
  | cons s rest ih =>
    rcases houtcome : s.outcome with _ | fault | op
    · simp only [run, Canvas.run, houtcome]
      rfl
    · simp only [run, Canvas.run, houtcome]
      rfl
    · obtain ⟨offset, stop, hop⟩ := hreads s List.mem_cons_self op houtcome
      have happly := apply_eq (c := { c with notices := c.notices ++ s.notices }) hp hop
      simp only [run, Canvas.run, houtcome, happly, Option.bind_eq_bind, Option.bind_some]
      split
      · rfl
      · refine ih ?_ fun t ht => hreads t (List.mem_cons_of_mem s ht)
        rw [(Canvas.apply_keeps ..).1]
        exact hp

theorem reads_of_mem_steps {d : Decoder} {s : Decoder.Step} (hs : s ∈ d.steps)
    (h : s.outcome = some (.ok op)) : ∃ offset stop, op.Reads d.revision d.data offset stop :=
  Decoder.reads_of_mem_ops (List.mem_filterMap.mpr
    ⟨.ok op, List.mem_filterMap.mpr ⟨s, hs, h⟩, rfl⟩)

theorem draw_eq {r : Renderer} (hp : r.rasterizer.placement.Moderate) (frame : Nat) :
    draw r frame = some (r.draw frame) := by
  unfold draw Renderer.draw
  cases r.script.frameOffset frame with
  | error fault => rfl
  | ok offset =>
    have hrun : run r.revision r.script.data (Decoder.ofStart r.revision r.script.data offset).steps
        ⟨r.planes, r.rasterizer, Report.start frame offset, [], none⟩ = some _ :=
      run_eq hp fun s hs op hop => reads_of_mem_steps hs hop
    simp only [hrun, Option.bind_eq_bind, Option.bind_some]
    generalize Canvas.run _ _ _ _ = canvas
    cases canvas.escaped <;> rfl

theorem inReach_of_mem_shapesInto {r : Renderer} {frame n : Nat}
    (h : shape ∈ r.shapesInto frame n) : ∀ v ∈ shape.vertices, v.InReach := by
  obtain ⟨⟨plane, drawn⟩, hmem, hsome⟩ := List.mem_filterMap.mp h
  obtain ⟨op, hop, hshape⟩ := List.mem_filterMap.mp hmem
  obtain ⟨offset, stop, hreads⟩ := Renderer.reads_of_mem_carriedOut hop
  dsimp only at hsome
  split at hsome
  · cases hsome
    exact inReach_of_shape? hreads hshape
  · cases hsome

end Frames

theorem near_of_mem_rows {p : Placement} {vertices : List Vertex} {y : Int} {z : Rasterizer}
    (h : ∀ v ∈ vertices, Placeable p v) (hrow : (y, z) ∈ Rasterizer.rows p vertices)
    {i : Nat} {c : LinkedEdge} (hc : z.edges[i]? = some c) : c.toCrossing.Near := by
  obtain ⟨top, bottom, w, hswept, -, -, rfl⟩ := Rasterizer.exists_swept_of_mem_rows hrow
  exact near_of_swept (fun e he => near_of_mem_outline h he) hswept hc

/-- Under a moderate placement no arithmetic of a tween, of an outline, of an edge table and of a
row of crossings overflows, whatever the script, the revision, the frame and what was drawn
before; how a span is toggled in its plane is no part of it, see `Machine.xorSpan`. A frame that
is drawn on a machine is drawn, and so is every tween, also past its last step. The shapes that
are filled are within reach. While a row of one is scanned, every edge in the buffers is between
its ends, two of them are compared by products that 128 bits hold, and its columns are what its
exact place is rounded to. -/
theorem drawing_fits_machine_words {r : Renderer} (hplacement : r.rasterizer.placement.Moderate)
    (frame : Nat) :
    draw r frame = some (r.draw frame) ∧
    (∀ ref, tween r.revision r.script.data ref =
      some (Tween.polygon r.revision r.script.data ref)) ∧
    (∀ ref shape, Tween.polygon r.revision r.script.data ref = .ok shape →
      ∀ v ∈ shape.vertices, v.InReach) ∧
    ∀ n, ∀ shape ∈ r.shapesInto frame n,
      (∀ v ∈ shape.vertices, v.InReach) ∧
      ∀ y z, (y, z) ∈ Rasterizer.rows r.rasterizer.placement shape.vertices →
        ∀ (i : Nat) c, z.edges[i]? = some c →
          c.BetweenEnds ∧ Fits 63 c.num ∧
          (∀ (j : Nat) d, z.edges[j]? = some d → Fits 127 (c.num * d.edge.dy)) ∧
          c.ceil = ⌈c.place⌉ ∧ c.floor = ⌊c.place⌋ := by
  refine ⟨draw_eq hplacement frame, tween_eq r.revision r.script.data,
    fun ref shape hshape => inReach_of_polygon hshape, fun n shape hshape => ?_⟩
  have hreach := inReach_of_mem_shapesInto hshape
  refine ⟨hreach, fun y z hrow i c hc => ?_⟩
  have hnear {j : Nat} {d : LinkedEdge} (hd : z.edges[j]? = some d) : d.toCrossing.Near :=
    near_of_mem_rows (fun v hv => placeable hplacement (hreach v hv)) hrow hd
  have hwithin := num_within (hnear hc)
  refine ⟨(hnear hc).2, ⟨by omega, by omega⟩, fun j d hd => ?_, ceil_eq_place (hnear hc),
    floor_eq_place (hnear hc)⟩
  have hdy := d.edge.dy_pos
  have hlt := dy_lt (hnear hd)
  have hproduct := mul_within (t := 2 ^ 31) hwithin (b := d.edge.dy) ⟨by omega, by omega⟩
  exact ⟨by omega, by omega⟩

/-- A tween at the largest scale, 255 times as far as from the one triangle to the other. Two of
its vertices are at the ends of the reach. -/
theorem drawing_fits_machine_words_far_tween :
    let script : Script :=
      { offsets := #[8]
        data := #[0xD2, 3, 255, 0, 0, 255, 1, 1, 1, 0xE6, 0, 10, 0, 6, 255, 1,
          0xD2, 3, 0, 255, 255, 0, 2, 2]
        offset_lt := by decide }
    let r : Renderer :=
      { script := script
        revision := .fourPlane
        planes := .dark 4 4 4 4
        palette := .layered
        rasterizer := .ofPlacement ⟨8192, 2 ^ 29, -2 ^ 29⟩
        compositor := .empty
        framebuffer := .black 4 4 }
    r.rasterizer.placement.Moderate ∧ draw r 0 = some (r.draw 0) ∧
      ∃ shape, shape ∈ r.shapesInto 0 0 ∧
        shape.vertices = [⟨-64770, 65025⟩, ⟨65025, -64770⟩, ⟨256, 256⟩] ∧
        ∀ v ∈ shape.vertices, v.InReach := by
  intro script r
  have hplacement : r.rasterizer.placement.Moderate := ⟨by decide, by decide, by decide, by decide,
    by decide, by decide⟩
  obtain ⟨hdraw, -, -, hshapes⟩ := drawing_fits_machine_words hplacement 0
  have hshape : r.shapesInto 0 0 = [⟨[⟨-64770, 65025⟩, ⟨65025, -64770⟩, ⟨256, 256⟩]⟩] := by
    cbv
  have hmem : _ ∈ r.shapesInto 0 0 := hshape ▸ List.mem_singleton_self _
  exact ⟨hplacement, hdraw, _, hmem, rfl, (hshapes 0 _ hmem).1⟩

end Machine

end Bitplane
