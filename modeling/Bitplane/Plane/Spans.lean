import Bitplane.Plane
import Bitplane.Scan

/-! # Drawing spans

A span toggles the drawable pixels of its columns, so that what is covered twice
is dark again.
-/

namespace Bitplane

namespace Plane

/-- Toggles runs of bytes, each given by its first place and its length. -/
def xorRuns (pen : UInt8) (runs : List (Nat × Nat)) (data : Bytes) : Bytes :=
  runs.foldl (fun data (i, count) => xorRun pen count i data) data

theorem size_xorRuns (pen : UInt8) (runs : List (Nat × Nat)) (data : Bytes) :
    (xorRuns pen runs data).size = data.size := by
  induction runs generalizing data with
  | nil => rfl
  | cons run rest ih => exact (ih _).trans (size_xorRun ..)

def xorSpans (p : Plane) (spans : List Span) : Plane :=
  p.withData (xorRuns p.pen (spans.map fun s => p.run s.y s.first s.last) p.data)
    (size_xorRuns ..)

theorem xorSpans_cons (p : Plane) (s : Span) (rest : List Span) :
    p.xorSpans (s :: rest) = (p.xorSpan s.y s.first s.last).xorSpans rest := rfl

end Plane

end Bitplane
