import Bitplane.Bytes

/-! # Sample scripts

Stars in many sizes and places, laid out as the stream of a script: a source
record, the frames, a target record. Every frame draws its stars over four
planes and ends with a tween between the source and the target. The stream is
written from front to back, so the tweens leave open how far the target is away;
that is filled in once all frames are written.
-/

namespace Bitplane

def fullTurn : Float := 6.283185307179586

/-- A number brought to the nearest byte. -/
def nearestByte (x : Float) : UInt8 :=
  let rounded := x.round
  if rounded ≤ 0.0 then 0 else if 255.0 ≤ rounded then 255 else rounded.toUInt8

/-- The vertices of a star, `(y, x)` each; every other one at half the radius. -/
def star (points : Nat) (radius centerY centerX phase : Float) : List (UInt8 × UInt8) :=
  (List.range points).map fun i =>
    let angle := fullTurn * i.toFloat / (max points 1).toFloat + phase
    let r := if i % 2 = 0 then radius else radius / 2.0
    (nearestByte (centerY + r * angle.sin), nearestByte (centerX + r * angle.cos))

/-- A polygon command: the command byte, the vertex count, which wraps at 256, and the pairs. -/
def polygonCommand (command : UInt8) (vertices : List (UInt8 × UInt8)) : List UInt8 :=
  command :: UInt8.ofNat vertices.length :: vertices.flatMap fun (y, x) => [y, x]

namespace Bytes

def setWord (data : Bytes) (i n : Nat) : Bytes :=
  (data.setIfInBounds i (UInt8.ofNat (n / 256))).setIfInBounds (i + 1) (UInt8.ofNat n)

end Bytes

inductive SampleFault where
  | tooManyPolygons
  /-- The deltas of the tweens have two bytes. -/
  | tooLarge
  deriving DecidableEq, Repr

def SampleFault.message : SampleFault → String
  | .tooManyPolygons => "too many polygons per frame"
  | .tooLarge => "script too large for 16-bit tween deltas"

namespace Sample

/-- The command of a sample's tweens, which draw into plane 2. -/
def tweenCommand : UInt8 := 0xE8

def tweenLength : Nat := 16

/-- The most polygons of a frame: its tween is counted in the same byte. -/
def maxPolygons : Nat := 254

def maxSize : Nat := 65535

def source (vertices : Nat) : List UInt8 :=
  polygonCommand 0xD2 (star vertices 40.0 100.0 128.0 0.0)

def target (vertices : Nat) : List UInt8 :=
  polygonCommand 0xD2 (star vertices 80.0 120.0 128.0 0.5)

def starOf (frame vertices polygon : Nat) : List (UInt8 × UInt8) :=
  let radius := 20.0 + ((frame * 7 + polygon * 13) % 60).toFloat
  let centerY := 60.0 + (polygon * 30 % 120).toFloat
  let centerX := 40.0 + (frame * 5 % 180).toFloat
  star vertices radius centerY centerX ((frame + polygon).toFloat * 0.1)

/-- The command that draws a star, into one plane of four after another. -/
def starCommand (polygon : Nat) : UInt8 := 0xD2 + UInt8.ofNat (polygon % 4)

def stars (frame polygons vertices : Nat) : List UInt8 :=
  (List.range polygons).flatMap fun polygon =>
    polygonCommand (starCommand polygon) (starOf frame vertices polygon)

structure Draft where
  offsets : Array Nat
  data : Bytes
  /-- The places of the tween payloads, the forward deltas of which are still open. -/
  slots : Array Nat

namespace Draft

def start (vertices : Nat) : Draft := ⟨#[], (source vertices).toArray, #[]⟩

def addFrame (polygons vertices : Nat) (d : Draft) (frame : Nat) : Draft :=
  let data := d.data.push (UInt8.ofNat polygons + 1) ++ stars frame polygons vertices
  let data := data.push tweenCommand
  { offsets := d.offsets.push d.data.size
    data := data ++ wordBytes data.size ++
      [0, 0, UInt8.ofNat (frame % tweenLength), UInt8.ofNat tweenLength]
    slots := d.slots.push data.size }

/-- Writes the target behind the frames, and into the tweens how far it is away. -/
def finish (vertices : Nat) (d : Draft) : Bytes :=
  d.slots.foldl (fun data slot => data.setWord (slot + 2) (d.data.size - slot))
    (d.data ++ target vertices)

end Draft

def draft (frames polygons vertices : Nat) : Draft :=
  (List.range frames).foldl (Draft.addFrame polygons vertices) (.start vertices)

end Sample

/-- The frame offsets and the stream of a sample script. -/
def sampleScript (frames polygons vertices : Nat) : Except SampleFault (Array Nat × Bytes) :=
  if Sample.maxPolygons < polygons then .error .tooManyPolygons
  else
    let draft := Sample.draft frames polygons vertices
    let data := draft.finish vertices
    if Sample.maxSize < data.size then .error .tooLarge else .ok (draft.offsets, data)

end Bitplane
