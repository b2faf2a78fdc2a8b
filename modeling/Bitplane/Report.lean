import Bitplane.Plane.Mask
import Bitplane.Fault

/-! # Frame reports

What became of one frame: how many commands drew, which planes they touched,
and what went wrong.
-/

namespace Bitplane

structure Report where
  frame : Nat
  offset : Nat
  /-- The polygons filled, tweens included. -/
  drawn : Nat
  /-- The commands that drew nothing. -/
  skipped : Nat
  touched : PlaneMask
  /-- The offset just past the draw list, if it decoded completely. -/
  endOffset : Option Nat
  /-- The tweens that did not resolve. -/
  rejected : List FrameFault
  /-- What ended the frame early. -/
  fault : Option FrameFault
  deriving DecidableEq, Repr

namespace Report

def start (frame offset : Nat) : Report where
  frame := frame
  offset := offset
  drawn := 0
  skipped := 0
  touched := .empty
  endOffset := none
  rejected := []
  fault := none

/-- Whether the frame decoded completely and every tween resolved. -/
def isClean (r : Report) : Bool := r.fault.isNone && r.rejected.isEmpty

def text (r : Report) : String :=
  s!"frame {r.frame} @ {Text.hex 4 r.offset}: {r.drawn} drawn, {r.skipped} skipped, " ++
    s!"planes {r.touched.text}" ++
    (if r.rejected.isEmpty then "" else s!", {r.rejected.length} tweens rejected") ++
    (match r.fault with
      | some fault => s!", stopped: {fault.message}"
      | none => "")

end Report

end Bitplane
