import Bitplane.CommandLine.Load

/-! # Inspecting scripts

The commands that look at a script without drawing it.
-/

namespace Bitplane.CommandLine

open SessionM

def distinctCount (ns : List Nat) : Nat := (ns.mergeSort.splitBy (· == ·)).length

/-- The operations of a frame that decodes, or none and the fault. -/
def inspectFrame (script : Script) (revision : Revision) (verbose : Bool) (frame : Nat) :
    SessionM (Option Nat) := do
  let decoded ← orFail (script.decodeFrame revision frame)
  say decoded.notices
  match decoded.result with
  | .ok (ops, _) => return some ops.length
  | .error fault =>
    if verbose then print s!"  frame {Text.blankPadded 5 frame}: {fault.message}"
    return none

def runInfo (choice : ScriptChoice) (verbose : Bool) : SessionM Unit := do
  let script ← loadScript choice
  let revision ← loadRevision choice
  print s!"Frames:         {script.frameCount}"
  print s!"Distinct lists: {distinctCount script.offsets.toList}"
  print s!"Data size:      {script.data.size} bytes"
  let found ← (List.range script.frameCount).mapM (inspectFrame script revision verbose)
  print s!"Operations:     {(found.filterMap id).foldl (· + ·) 0}"
  print s!"Faulty frames:  {(found.filter Option.isNone).length}"

def stepLines (hex : Bool) (s : Decoder.Step) : List String :=
  match s.outcome with
  | none => []
  | some (.error fault) => [s!"  error: {fault.message}"]
  | some (.ok op) =>
    let bytes := s.after.data.extract op.offset s.after.position
    s!"  {op.text}" :: if hex then [s!"    {Text.hexBytes bytes}"] else []

def dumpFrame (script : Script) (revision : Revision) (hex : Bool) (frame : Nat) :
    SessionM Unit := do
  let decoder ← orFail (script.decoder revision frame)
  let steps := decoder.steps
  print s!"frame {frame} @ {Text.hex 4 decoder.start}"
  for s in steps do
    say s.notices
    (stepLines hex s).forM print
  if let some stop := steps.getLast?.bind (·.after.endOffset?) then
    print s!"  end @ {Text.hex 4 stop}"

def runDump (choice : ScriptChoice) (frame : Option Nat) (hex : Bool) : SessionM Unit := do
  let script ← loadScript choice
  let revision ← loadRevision choice
  match frame with
  | none => (List.range script.frameCount).forM (dumpFrame script revision hex)
  | some frame =>
    if frame < script.frameCount then dumpFrame script revision hex frame
    else throw (.frameRange frame script.frameCount)

end Bitplane.CommandLine
