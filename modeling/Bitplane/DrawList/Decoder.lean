import Bitplane.DrawList.Operation
import Bitplane.Revision
import Bitplane.Notice

/-! # The draw list decoder

A draw list is a count byte and that many commands. The decoder hands out one
operation per call of `next`; the first fault ends it, and so does the end of
the list. It never draws, so the same bytes always give the same operations.
-/

namespace Bitplane

def tweenPayload : Nat := 6

/-- The tween that six payload bytes at `base` stand for. Both deltas count from
`base`, the first one backwards. -/
def TweenRef.ofPayload (base : Nat) (payload : Bytes) : Except TweenFault TweenRef :=
  let byte i := payload.getD i 0
  let back := wordOf (byte 0) (byte 1)
  let forward := wordOf (byte 2) (byte 3)
  if back ≤ base then .ok ⟨base - back, base + forward, byte 4, byte 5⟩
  else .error (.beforeStart base back)

namespace DrawOp

def readSkip (data : Bytes) (offset : Nat) (command : UInt8) (bytes : Nat) :
    Except FrameFault DrawOp × Nat :=
  match data.slice? (offset + 1) bytes with
  | none => (.error (.unexpectedEnd (offset + 1) bytes), offset + 1)
  | some _ => (.ok (.skip offset command bytes), offset + 1 + bytes)

/-- The operation of the command at `offset`, and the offset where reading ended. -/
def read (revision : Revision) (data : Bytes) (offset : Nat) : Except FrameFault DrawOp × Nat :=
  match data[offset]? with
  | none => (.error (.unexpectedEnd offset 1), offset)
  | some command =>
    match revision.classify command with
    | .polygon plane =>
      match Polygon.read data (offset + 1) with
      | .error fault => (.error fault, offset + 1)
      | .ok (shape, stop) => (.ok (.polygon offset command plane shape), stop)
    | .tween plane =>
      match data.slice? (offset + 1) tweenPayload with
      | none => (.error (.unexpectedEnd (offset + 1) tweenPayload), offset + 1)
      | some payload =>
        match TweenRef.ofPayload (offset + 1) payload with
        | .error fault => (.error (.tween offset fault), offset + 1 + tweenPayload)
        | .ok ref => (.ok (.tween offset command plane ref), offset + 1 + tweenPayload)
    | .ignored payload => readSkip data offset command payload
    | .unknown =>
      match revision.unknown with
      | .skip bytes => readSkip data offset command bytes
      | .abort => (.error (.unknownCommand offset command), offset + 1)

end DrawOp

/-- The draw count at `start`, when the revision allows it. -/
def readDrawCount (revision : Revision) (data : Bytes) (start : Nat) : Except FrameFault UInt8 :=
  match data[start]? with
  | none => .error (.unexpectedEnd start 1)
  | some count =>
    match revision.maxDraws with
    | none => .ok count
    | some most =>
      if count = 0 ∨ most < count then .error (.drawCount start count most) else .ok count

inductive DecoderPhase where
  | running | finished | failed
  deriving DecidableEq, Repr

/-- A decoder over the draw list at `start`. -/
structure Decoder where
  revision : Revision
  data : Bytes
  start : Nat
  /-- The offset of the next byte to read. -/
  position : Nat
  /-- The draw count, once the header is accepted. -/
  drawCount : Option UInt8
  /-- The commands that are still to be read. -/
  remaining : Nat
  phase : DecoderPhase

namespace Decoder

def ofStart (revision : Revision) (data : Bytes) (start : Nat) : Decoder where
  revision := revision
  data := data
  start := start
  position := start
  drawCount := none
  remaining := 0
  phase := .running

/-- The offset just past the draw list, once it has decoded completely. -/
def endOffset? (d : Decoder) : Option Nat :=
  if d.phase = .finished then some d.position else none

/-- Reads the next command, or finishes when none remains. -/
def nextCommand (d : Decoder) : Option (Except FrameFault DrawOp) × Decoder :=
  match d.remaining with
  | 0 => (none, { d with phase := .finished })
  | remaining + 1 =>
    match DrawOp.read d.revision d.data d.position with
    | (.ok op, stop) => (some (.ok op), { d with position := stop, remaining := remaining })
    | (.error fault, stop) =>
      (some (.error fault),
        { d with position := stop, remaining := remaining, phase := .failed })

/-- Reads the header, if it is still to be read. A refused count is passed over
all the same; a missing one is not. -/
def header (d : Decoder) : Except (FrameFault × Decoder) Decoder :=
  match d.drawCount with
  | some _ => .ok d
  | none =>
    match readDrawCount d.revision d.data d.position with
    | .ok count =>
      .ok { d with
        position := d.position + 1, drawCount := some count, remaining := count.toNat }
    | .error fault =>
      let passed := if d.position < d.data.size then d.position + 1 else d.position
      .error (fault, { d with position := passed, phase := .failed })

/-- The next operation or fault, and the decoder after it. -/
def next (d : Decoder) : Option (Except FrameFault DrawOp) × Decoder :=
  match d.phase with
  | .running =>
    match d.header with
    | .ok d => d.nextCommand
    | .error (fault, d) => (some (.error fault), d)
  | _ => (none, d)

def previewSize : Nat := 8

/-- Bytes in capitals, between brackets. -/
def previewText (part : Bytes) : String :=
  "[" ++ ", ".intercalate (part.toList.map Text.byteCapitals) ++ "]"

def unknownNotice? (revision : Revision) (data : Bytes) (offset : Nat) : Option Notice :=
  match data[offset]? with
  | none => none
  | some command =>
    if revision.classify command = .unknown then
      let preview := previewText (data.extract (offset + 1) (offset + 1 + previewSize))
      some ⟨.warn, .decoder,
        s!"unknown command {Text.hex 2 command.toNat} at {Text.hex 4 offset}" ++
          s!" (revision {revision.name}), operands {preview}"⟩
    else none

/-- What `d.next` has to say: that it accepted the header, that it met an unknown
command, and which operation it read. -/
def nextNotices (d : Decoder) : List Notice :=
  match d.phase, d.header with
  | .running, .ok headed =>
    let opened := match d.drawCount, headed.drawCount with
      | none, some count =>
        [⟨.debug, .decoder,
          s!"draw list at {Text.hex 4 d.position}: {count.toNat} draws"⟩]
      | _, _ => []
    let met := if headed.remaining = 0 then none
      else unknownNotice? d.revision d.data headed.position
    let read := match d.next.1 with
      | some (.ok op) => [⟨.trace, .decoder, op.text⟩]
      | _ => []
    opened ++ met.toList ++ read
  | _, _ => []

structure Step where
  outcome : Option (Except FrameFault DrawOp)
  after : Decoder
  notices : List Notice

def step (d : Decoder) : Step where
  outcome := d.next.1
  after := d.next.2
  notices := d.nextNotices

/-- A bound on the steps of a decoder: one for each command and one for the end. -/
def budget (d : Decoder) : Nat :=
  match d.drawCount with
  | some _ => d.remaining + 1
  | none => 256

/-- At most `limit` steps, up to and including the first that gives nothing. -/
def stepsUpTo : Nat → Decoder → List Step
  | 0, _ => []
  | limit + 1, d =>
    let s := d.step
    match s.outcome with
    | none => [s]
    | some _ => s :: stepsUpTo limit s.after

def steps (d : Decoder) : List Step := stepsUpTo d.budget d

def outcomes (d : Decoder) : List (Except FrameFault DrawOp) :=
  d.steps.filterMap Step.outcome

def ops (d : Decoder) : List DrawOp :=
  d.outcomes.filterMap fun
    | .ok op => some op
    | .error _ => none

end Decoder

end Bitplane
