import Bitplane.CommandLine.Load
import Bitplane.Playback
import Bitplane.Renderer

/-! # Showing scripts

The commands that draw frames: one writes them to images with a list of what
became of each, the other plays them against a clock that it moves itself.
-/

namespace Bitplane.CommandLine

open SessionM

def viewPalette (view : View) : SessionM Palette :=
  if view.colors.isEmpty then pure view.palette
  else match view.colors.mapM Color.ofText with
    | .error _ => throw .colors
    | .ok colors => orFail ((Palette.ofColors colors).mapError .palette)

def openRenderer (script : Script) (revision : Revision) (view : View) : SessionM Renderer := do
  if view.width = 0 ∨ view.height = 0 then throw (.outputSize view.width view.height)
  let renderer ← orFail ((Renderer.ofScript script revision view.width view.height).mapError
    .revision)
  say [Renderer.openNotice script revision view.width view.height]
  let palette ← viewPalette view
  let renderer := { renderer with palette := palette }
  unless view.fit do return renderer
  let placement := Placement.fit view.width view.height
  tell s!"Placement: scale {placement.scale}, offset ({placement.x}, {placement.y})"
  return renderer.withPlacement placement

/-- The report of a frame. Says what drawing it had to say, and once more if it is not
clean. -/
def sayDrawn (drawn : Renderer.Drawn) : SessionM Report := do
  say drawn.notices
  let report ← orFail drawn.result
  unless report.isClean do say [⟨.warn, .commandLine, report.text⟩]
  return report

def reportDocument (file : String) (r : Report) : Document :=
  .table [
    ("index", .int r.frame),
    ("offset", .int r.offset),
    ("file", .text file),
    ("drawn", .int r.drawn),
    ("skipped", .int r.skipped),
    ("touched", .int r.touched.bits.toNat),
    ("rejected", .list (r.rejected.map fun fault => .text fault.message)),
    ("fault", (r.fault.map fun fault => .text fault.message).getD .null)]

def manifest (path revisionName : String) (view : View) (entries : List Document) : Document :=
  .table [
    ("script", .text path),
    ("revision", .text revisionName),
    ("width", .int view.width),
    ("height", .int view.height),
    ("frames", .list entries)]

def imageName (frame : Nat) : String := s!"frame_{Text.zeroPadded 5 frame}.png"

/-- Renders `count` frames from `frame` on into images, behind the entries in
`found`, which are kept last first. -/
def renderFrames (output : String) (view : View) : (count frame : Nat) → List Document →
    Renderer → SessionM (List Document)
  | 0, _, found, _ => return found.reverse
  | count + 1, frame, found, renderer => do
    let (drawn, picture) := renderer.renderInto frame (Framebuffer.black view.width view.height)
    let report ← sayDrawn drawn
    let path := FileName.join output (imageName frame)
    write path (.image picture) (.write path)
    renderFrames output view count (frame + 1)
      (reportDocument (imageName frame) report :: found) drawn.renderer

def runRender (choice : ScriptChoice) (output : String) (view : View) (last : Option Nat) :
    SessionM Unit := do
  let script ← loadScript choice
  let revision ← loadRevision choice
  let renderer ← openRenderer script revision view
  makeDirectory output
  let count := match last with
    | some last => min (last + 1) script.frameCount
    | none => script.frameCount
  let entries ← renderFrames output view count 0 [] renderer
  let path := FileName.join output "manifest.json"
  let text := Document.Json.pretty (manifest choice.path revision.name view entries)
  write path (.bytes (Text.toBytes text)) (.write path)
  tell s!"Rendered {entries.length} frames to {output}"

structure Tally where
  rendered : Nat
  unchanged : Nat
  faulty : Nat

def playTicks : List Tick → Tally → Renderer → SessionM Tally
  | [], tally, _ => return tally
  | .render frame :: rest, tally, renderer => do
    let drawn := renderer.render frame
    let report ← sayDrawn drawn
    let faulty := if report.isClean then tally.faulty else tally.faulty + 1
    playTicks rest { tally with rendered := tally.rendered + 1, faulty := faulty } drawn.renderer
  | _ :: rest, tally, renderer =>
    playTicks rest { tally with unchanged := tally.unchanged + 1 } renderer

def runPlay (choice : ScriptChoice) (view : View) (interval poll : Nat) : SessionM Unit := do
  let script ← loadScript choice
  let revision ← loadRevision choice
  let renderer ← openRenderer script revision view
  let playback := (Playback.ofFrames script.frameCount).withInterval (.ofMillis interval)
  let (ticks, stop) := playback.ticks (.ofMillis (max poll 1))
  let tally ← playTicks ticks ⟨0, 0, 0⟩ renderer
  tell <| s!"Played {script.frameCount} frames in {stop.text}: {tally.rendered} rendered, " ++
    s!"{script.frameCount - tally.rendered} dropped, {tally.unchanged} redundant ticks, " ++
    s!"{tally.faulty} faulty"

end Bitplane.CommandLine
