import Bitplane.Text.Numeral

/-! # What can go wrong

Each cause is a constructor that carries the numbers involved; its wording is
in `message`. The causes that spoil only the frame at hand are `FrameFault`, so
that whatever yields one cannot end a session.
-/

namespace Bitplane

open Text

inductive TweenFault where
  | outOfBounds (target : Nat)
  | beforeStart (position delta : Nat)
  | notAPolygon (target : Nat) (tag : UInt8)
  | truncated (target needed : Nat)
  | emptyShape (target : Nat)
  | zeroDuration
  deriving DecidableEq, Repr

def TweenFault.message : TweenFault → String
  | .outOfBounds target => s!"reference {hex 4 target} is outside the script data"
  | .beforeStart position delta =>
    s!"backward delta {hex 4 delta} from {hex 4 position} reaches before the data"
  | .notAPolygon target tag =>
    s!"reference {hex 4 target} holds {hex 2 tag.toNat}, not a polygon command"
  | .truncated target needed =>
    s!"polygon at {hex 4 target} needs {needed} bytes but the data ends first"
  | .emptyShape target => s!"polygon at {hex 4 target} has no vertices to tween with"
  | .zeroDuration => "tween duration is zero"

inductive FrameFault where
  | unexpectedEnd (offset needed : Nat)
  | unknownCommand (offset : Nat) (command : UInt8)
  | drawCount (offset : Nat) (count most : UInt8)
  | tween (offset : Nat) (fault : TweenFault)
  | planeOutOfRange (plane : UInt8) (planeCount : Nat)
  deriving DecidableEq, Repr

def FrameFault.message : FrameFault → String
  | .unexpectedEnd offset needed =>
    s!"Unexpected end of data at {hex 4 offset}: needed {needed} more bytes"
  | .unknownCommand offset command =>
    s!"Unknown command {hex 2 command.toNat} at {hex 4 offset}"
  | .drawCount offset count most =>
    s!"Invalid draw count {count.toNat} at {hex 4 offset} (allowed 1..={most.toNat})"
  | .tween offset fault => s!"Invalid tween at {hex 4 offset}: {fault.message}"
  | .planeOutOfRange plane planeCount =>
    s!"Plane {plane.toNat} out of range (plane count: {planeCount})"

inductive ScriptFault where
  | offsetOutside (frame offset size : Nat)
  | oddTable (length : Nat)
  | frameCount (count : Nat)
  | offsetTooLarge (offset : Nat)
  | other (reason : String)
  deriving DecidableEq, Repr

def ScriptFault.reason : ScriptFault → String
  | .offsetOutside frame offset size =>
    s!"frame {frame} offset {hex 1 offset} is outside {size} bytes of data"
  | .oddTable length => s!"index table length {length} is not a multiple of 2"
  | .frameCount count => s!"{count} frames do not fit in u16"
  | .offsetTooLarge offset => s!"offset {hex 1 offset} does not fit in u16"
  | .other reason => reason

def ScriptFault.message (fault : ScriptFault) : String :=
  "Invalid script: " ++ fault.reason

inductive RevisionFault where
  | planeCount (count most : Nat)
  | emptyPlaneMap
  | polygonRange (base : UInt8) (length : Nat)
  | missingPlane (plane : UInt8) (planeCount : Nat)
  | repeatedCommand (command : UInt8)
  | planesGiven (given : Nat) (name : String) (used : Nat)
  | other (reason : String)
  deriving DecidableEq, Repr

def RevisionFault.reason : RevisionFault → String
  | .planeCount count most => s!"plane count {count} not in 1..={most}"
  | .emptyPlaneMap => "empty polygon plane map"
  | .polygonRange base length =>
    s!"polygon range {hex 2 base.toNat}+{length} exceeds the byte space"
  | .missingPlane plane count => s!"plane {plane.toNat} not below plane count {count}"
  | .repeatedCommand command => s!"command {hex 2 command.toNat} assigned more than once"
  | .planesGiven given name used => s!"{given} planes given, revision {name} uses {used}"
  | .other reason => reason

def RevisionFault.message (fault : RevisionFault) : String :=
  "Invalid format revision: " ++ fault.reason

inductive PaletteFault where
  | tooManyColors (count most : Nat)
  | indexOutOfRange (index : UInt8)
  | blendStep (step total : Nat)
  | invalidColor (quoted : String)
  | other (reason : String)
  deriving DecidableEq, Repr

def PaletteFault.reason : PaletteFault → String
  | .tooManyColors count most => s!"{count} colors given, at most {most} allowed"
  | .indexOutOfRange index => s!"index {index.toNat} out of range"
  | .blendStep step total => s!"blend step {step} is past total {total}"
  | .invalidColor quoted => "invalid color " ++ quoted
  | .other reason => reason

def PaletteFault.message (fault : PaletteFault) : String :=
  "Invalid palette: " ++ fault.reason

/-- Everything that an operation of the library can fail with. -/
inductive Fault where
  | frame (fault : FrameFault)
  | frameIndex (index frameCount : Nat)
  | script (fault : ScriptFault)
  | revision (fault : RevisionFault)
  | palette (fault : PaletteFault)
  /-- A document that is not well formed, or that spells an inconsistent script. -/
  | document (cause : Option ScriptFault)
  /-- A file that cannot be read or written. -/
  | file
  deriving DecidableEq, Repr

/-- Whether a fault spoils only the frame at hand. -/
def Fault.isFrameLocal : Fault → Bool
  | .frame (.unexpectedEnd ..) => true
  | .frame (.unknownCommand ..) => true
  | .frame (.drawCount ..) => true
  | .frame (.tween ..) => true
  | .frame (.planeOutOfRange ..) => true
  | _ => false

theorem Fault.isFrameLocal_frame (fault : FrameFault) : (Fault.frame fault).isFrameLocal := by
  cases fault <;> rfl

/-- The wording of a fault; an ill-formed document and a missing file have none. -/
def Fault.message? : Fault → Option String
  | .frame fault => some fault.message
  | .frameIndex index frameCount =>
    some s!"Frame {index} out of range (frame count: {frameCount})"
  | .script fault => some fault.message
  | .revision fault => some fault.message
  | .palette fault => some fault.message
  | .document cause => cause.map ScriptFault.message
  | .file => none

theorem mapError_eq_ok_iff {α ε ε' : Type} {f : ε → ε'} {result : Except ε α} {a : α} :
    result.mapError f = .ok a ↔ result = .ok a := by
  cases result with
  | ok b =>
    constructor
    · exact fun h => congrArg Except.ok (Except.ok.inj h)
    · exact fun h => congrArg Except.ok (Except.ok.inj h)
  | error e => exact ⟨nofun, nofun⟩

theorem bind_eq_ok_iff {ε α β : Type} {first : Except ε α} {next : α → Except ε β} {result : β} :
    first >>= next = .ok result ↔ ∃ found, first = .ok found ∧ next found = .ok result := by
  cases first with
  | error fault => exact iff_of_false nofun nofun
  | ok found =>
    constructor
    · exact fun h => ⟨found, rfl, h⟩
    · rintro ⟨_, ⟨⟩, h⟩
      exact h

end Bitplane
