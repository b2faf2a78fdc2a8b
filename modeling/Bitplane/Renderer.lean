import Bitplane.Compositor
import Bitplane.Rasterizer
import Bitplane.Report
import Bitplane.Script
import Bitplane.Tween

/-! # The renderer

A renderer holds what one session needs: the script, its revision, the planes,
the palette, a rasterizer, a compositor and an image. The first shape that a frame draws
into a plane clears it and later ones toggle on top; the other planes keep what
they show. A fault ends the frame, not the session, and a tween that does not
resolve is passed over.
-/

namespace Bitplane

/-- Where the drawing of a frame stands. -/
structure Canvas where
  planes : PlaneStore
  rasterizer : Rasterizer
  report : Report
  notices : List Notice
  /-- The fault that ends more than the frame. -/
  escaped : Option Fault

namespace Canvas

variable (c : Canvas)

/-- Ends the frame. A fault that spoils more than the frame is not for the report. -/
def stop (fault : FrameFault) : Canvas :=
  if (Fault.frame fault).isFrameLocal then
    { c with
      report := { c.report with fault := some fault }
      notices := c.notices ++
        [⟨.warn, .renderer, s!"frame {c.report.frame}: {fault.message}"⟩] }
  else { c with escaped := some (.frame fault) }

def isStopped : Bool := c.report.fault.isSome || c.escaped.isSome

/-- Passes over a command that draws nothing. -/
def skip : Canvas := { c with report := { c.report with skipped := c.report.skipped + 1 } }

/-- Passes over the tween at `offset`, which does not resolve. -/
def reject (offset : Nat) (fault : TweenFault) : Canvas :=
  let fault := FrameFault.tween offset fault
  { c.skip with
    report := { c.skip.report with rejected := c.report.rejected ++ [fault] }
    notices := c.notices ++
      [⟨.warn, .renderer, s!"frame {c.report.frame}: skipping {fault.message}"⟩] }

/-- Fills one shape, clearing its plane if the frame has not touched it yet. -/
def draw (plane : UInt8) (shape : Polygon) : Canvas :=
  match c.planes.get plane with
  | .error fault => c.stop fault
  | .ok target =>
    let clear := !c.report.touched.contains plane
    let said := c.rasterizer.fillNotice? target shape.vertices
    let (filled, rasterizer) := c.rasterizer.fill target shape.vertices clear
    { c with
      planes := c.planes.set plane filled
      rasterizer := rasterizer
      report := { c.report with
        drawn := c.report.drawn + 1, touched := c.report.touched.insert plane }
      notices := c.notices ++ said.toList }

def apply (revision : Revision) (data : Bytes) : DrawOp → Canvas
  | .polygon _ _ plane shape => c.draw plane shape
  | .tween offset _ plane ref =>
    match Tween.polygon revision data ref with
    | .ok shape => c.draw plane shape
    | .error fault => c.reject offset fault
  | .skip .. => c.skip

/-- Carries out the steps of a decoder until one gives nothing or a fault stops
the frame. -/
def run (revision : Revision) (data : Bytes) : List Decoder.Step → Canvas → Canvas
  | [], c => c
  | s :: rest, c =>
    let c := { c with notices := c.notices ++ s.notices }
    match s.outcome with
    | none => { c with report := { c.report with endOffset := s.after.endOffset? } }
    | some (.error fault) => c.stop fault
    | some (.ok op) =>
      let c := c.apply revision data op
      if c.isStopped then c else run revision data rest c

end Canvas

structure Renderer where
  script : Script
  revision : Revision
  planes : PlaneStore
  palette : Palette
  rasterizer : Rasterizer
  compositor : Compositor
  framebuffer : Framebuffer

namespace Renderer

/-- A renderer with dark planes and a black image, if the revision is consistent. -/
def ofScript (script : Script) (revision : Revision) (width height : Nat) :
    Except RevisionFault Renderer :=
  revision.validate.map fun _ =>
    { script := script
      revision := revision
      planes := PlaneStore.dark revision.planeCount width height width
      palette := .layered
      rasterizer := .ofPlacement .identity
      compositor := .empty
      framebuffer := Framebuffer.black width height }

def openNotice (script : Script) (revision : Revision) (width height : Nat) : Notice :=
  ⟨.debug, .renderer, s!"renderer: {script.text}, revision {revision.name}, {width}x{height}"⟩

variable (r : Renderer)

def withPlacement (placement : Placement) : Renderer :=
  { r with rasterizer := { r.rasterizer with placement := placement } }

/-- Replaces the planes by as many others. -/
def withPlanes (planes : PlaneStore) : Except RevisionFault Renderer :=
  if planes.size = r.revision.planeCount then .ok { r with planes := planes }
  else .error (.planesGiven planes.size r.revision.name r.revision.planeCount)

def frameCount : Nat := r.script.frameCount

def reset : Renderer := { r with planes := r.planes.clearAll }

/-- What a call that draws a frame leaves behind, and what it answers. -/
structure Drawn where
  renderer : Renderer
  result : Except Fault Report
  notices : List Notice

def draw (frame : Nat) : Drawn :=
  match r.script.frameOffset frame with
  | .error fault => ⟨r, .error fault, []⟩
  | .ok offset =>
    let decoder := Decoder.ofStart r.revision r.script.data offset
    let canvas := Canvas.run r.revision r.script.data decoder.steps
      ⟨r.planes, r.rasterizer, Report.start frame offset, [], none⟩
    let renderer := { r with planes := canvas.planes, rasterizer := canvas.rasterizer }
    match canvas.escaped with
    | some fault => ⟨renderer, .error fault, canvas.notices⟩
    | none => ⟨renderer, .ok canvas.report,
        canvas.notices ++ [⟨.debug, .renderer, canvas.report.text⟩]⟩

def composite (image : Framebuffer) : Renderer × Framebuffer :=
  let (compositor, image) := r.compositor.compose r.planes r.palette image
  ({ r with compositor := compositor }, image)

/-- Draws a frame and shows the planes in an image, which a refused frame leaves alone. -/
def renderInto (frame : Nat) (image : Framebuffer) : Drawn × Framebuffer :=
  let drawn := r.draw frame
  match drawn.result with
  | .error _ => (drawn, image)
  | .ok _ =>
    let (renderer, image) := drawn.renderer.composite image
    ({ drawn with renderer := renderer }, image)

def render (frame : Nat) : Drawn :=
  let (drawn, image) := r.renderInto frame r.framebuffer
  { drawn with renderer := { drawn.renderer with framebuffer := image } }

end Renderer

end Bitplane
