import Bitplane.DrawList.Decoder

/-! # Scripts

A script is a table of frame offsets and the stream they point into; frames may
share an offset, and every offset lies inside the stream.
-/

namespace Bitplane

structure Script where
  offsets : Array Nat
  data : Bytes
  offset_lt : ∀ o ∈ offsets, o < data.size

namespace Script

/-- A script of the given parts, if every offset lies inside the stream; if not,
the fault names the first frame that does not. -/
def ofParts (offsets : Array Nat) (data : Bytes) : Except ScriptFault Script :=
  match h : offsets.findIdx? (data.size ≤ ·) with
  | none => .ok ⟨offsets, data, by simpa [Array.findIdx?_eq_none_iff] using h⟩
  | some frame => .error (.offsetOutside frame (offsets.getD frame 0) data.size)

theorem ofParts_of_lt {offsets : Array Nat} {data : Bytes} (h : ∀ o ∈ offsets, o < data.size) :
    ofParts offsets data = .ok ⟨offsets, data, h⟩ := by
  have hnone : offsets.findIdx? (data.size ≤ ·) = none := by
    simpa [Array.findIdx?_eq_none_iff] using h
  unfold ofParts
  split
  case h_1 => rfl
  case h_2 frame hframe => simp [hnone] at hframe

theorem ofParts_eq_ok_iff {offsets : Array Nat} {data : Bytes} {s : Script} :
    ofParts offsets data = .ok s ↔ s.offsets = offsets ∧ s.data = data := by
  constructor
  · intro h
    unfold ofParts at h
    split at h
    case h_1 =>
      obtain rfl := Except.ok.inj h
      exact ⟨rfl, rfl⟩
    case h_2 => simp at h
  · rintro ⟨rfl, rfl⟩
    exact ofParts_of_lt s.offset_lt

theorem exists_ofParts_iff {offsets : Array Nat} {data : Bytes} :
    (∃ s, ofParts offsets data = .ok s) ↔ ∀ o ∈ offsets, o < data.size := by
  constructor
  · rintro ⟨s, hs⟩
    obtain ⟨rfl, rfl⟩ := ofParts_eq_ok_iff.mp hs
    exact s.offset_lt
  · exact fun h => ⟨_, ofParts_of_lt h⟩

variable (s : Script)

def frameCount : Nat := s.offsets.size

def text : String := s!"Script({s.frameCount} frames, {s.data.size} bytes)"

def frameOffset (frame : Nat) : Except Fault Nat :=
  match s.offsets[frame]? with
  | some offset => .ok offset
  | none => .error (.frameIndex frame s.frameCount)

def decoder (revision : Revision) (frame : Nat) : Except Fault Decoder :=
  (s.frameOffset frame).map (Decoder.ofStart revision s.data)

theorem decoder_of_frameOffset {s : Script} {frame start : Nat} (revision : Revision)
    (h : s.frameOffset frame = .ok start) :
    s.decoder revision frame = .ok (Decoder.ofStart revision s.data start) := by
  rw [decoder, h]
  rfl

/-- What the decoding of a whole frame gives: its operations and the offset just
past them, or the first fault; and the notices on the way. -/
structure Decoded where
  result : Except FrameFault (List DrawOp × Nat)
  notices : List Notice

/-- The operations up to the first step that gives nothing, or the first fault. -/
def collect : List Decoder.Step → List DrawOp → Nat → Except FrameFault (List DrawOp × Nat)
  | [], ops, stop => .ok (ops.reverse, stop)
  | s :: rest, ops, _ =>
    match s.outcome with
    | none => .ok (ops.reverse, s.after.position)
    | some (.ok op) => collect rest (op :: ops) s.after.position
    | some (.error fault) => .error fault

def decodeFrame (revision : Revision) (frame : Nat) : Except Fault Decoded :=
  (s.decoder revision frame).map fun d =>
    { result := collect d.steps [] d.position
      notices := d.steps.flatMap Decoder.Step.notices }

end Script

end Bitplane
