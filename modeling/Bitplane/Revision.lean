import Bitplane.Fault

/-! # Format revisions

Captures of the format use different parts of the command byte space. A
revision is the table that tells them apart: which bytes draw polygons and into
which plane, which bytes tween, which carry a payload to pass over, and what
happens to the others.
-/

namespace Bitplane

structure TweenCommand where
  command : UInt8
  plane : UInt8
  deriving DecidableEq, Repr

structure IgnoredCommand where
  command : UInt8
  payload : Nat
  deriving DecidableEq, Repr

inductive UnknownPolicy where
  /-- Pass over this many bytes and go on. -/
  | skip (bytes : Nat)
  /-- Give up the frame. -/
  | abort
  deriving DecidableEq, Repr

structure Revision where
  name : String
  planeCount : Nat
  /-- The first byte of the polygon range. -/
  polygonBase : UInt8
  /-- The plane of each byte in the polygon range. -/
  planeMap : List UInt8
  tweens : List TweenCommand
  ignored : List IgnoredCommand
  unknown : UnknownPolicy
  /-- The greatest draw count of a frame; with none, every count is allowed, zero too. -/
  maxDraws : Option UInt8
  deriving DecidableEq, Repr

inductive CommandKind where
  | polygon (plane : UInt8)
  | tween (plane : UInt8)
  | ignored (payload : Nat)
  | unknown
  deriving DecidableEq, Repr

namespace Revision

/-- The greatest number of planes: palette indices have four bits. -/
def maxPlanes : Nat := 4

def fourPlane : Revision where
  name := "four-plane"
  planeCount := 4
  polygonBase := 0xD0
  planeMap := [0, 0, 0, 1, 2, 3, 0, 0, 0, 0, 0, 0, 0, 0, 0, 0]
  tweens := [⟨0xE6, 0⟩, ⟨0xE8, 2⟩]
  ignored := [⟨0xF2, 6⟩]
  unknown := .skip 6
  maxDraws := none

def singlePlane : Revision where
  name := "single-plane"
  planeCount := 1
  polygonBase := 0xD0
  planeMap := List.replicate 16 0
  tweens := []
  ignored := []
  unknown := .abort
  maxDraws := some 6

variable (r : Revision)

/-- The last byte of the polygon range, which an over-long map does not move past 255. -/
def polygonLast : UInt8 :=
  UInt8.ofNat (min (r.polygonBase.toNat + (r.planeMap.length - 1)) 255)

def isPolygon (command : UInt8) : Bool :=
  !r.planeMap.isEmpty && r.polygonBase ≤ command && command ≤ r.polygonLast

/-- The meaning of a command byte: the polygon range comes first, then tweens,
then ignored commands, each list in its order. -/
def classify (command : UInt8) : CommandKind :=
  if r.isPolygon command then
    .polygon (r.planeMap.getD (command.toNat - r.polygonBase.toNat) 0)
  else match r.tweens.find? (·.command == command) with
    | some tween => .tween tween.plane
    | none => match r.ignored.find? (·.command == command) with
      | some ignored => .ignored ignored.payload
      | none => .unknown

def bytesFrom (first last : UInt8) : List UInt8 :=
  (List.range (last.toNat + 1 - first.toNat)).map fun i => UInt8.ofNat (first.toNat + i)

/-- The first command that is already in `seen`, or that repeats an earlier one. -/
def firstRepeated (seen : List UInt8) : List UInt8 → Option UInt8
  | [] => none
  | c :: rest => if c ∈ seen then some c else firstRepeated (c :: seen) rest

/-- The planes that the table names: those of polygons, then those of tweens. -/
def planes : List UInt8 := r.planeMap ++ r.tweens.map TweenCommand.plane

/-- The commands outside the polygon range: tweens, then ignored ones. -/
def extraCommands : List UInt8 :=
  r.tweens.map TweenCommand.command ++ r.ignored.map IgnoredCommand.command

/-- Finds the first thing that makes the table inconsistent. -/
def validate : Except RevisionFault Unit :=
  if r.planeCount = 0 ∨ maxPlanes < r.planeCount then
    .error (.planeCount r.planeCount maxPlanes)
  else if r.planeMap.isEmpty then .error .emptyPlaneMap
  else if 256 < r.polygonBase.toNat + r.planeMap.length then
    .error (.polygonRange r.polygonBase r.planeMap.length)
  else match r.planes.find? (r.planeCount ≤ ·.toNat) with
    | some plane => .error (.missingPlane plane r.planeCount)
    | none => match firstRepeated (bytesFrom r.polygonBase r.polygonLast) r.extraCommands with
      | some command => .error (.repeatedCommand command)
      | none => .ok ()

def text : String :=
  s!"{r.name} ({r.planeCount} planes, polygons {Text.hex 2 r.polygonBase.toNat}" ++
    s!"..={Text.hex 2 r.polygonLast.toNat}, {r.tweens.length} tween, {r.ignored.length} ignored)"

end Revision

end Bitplane
