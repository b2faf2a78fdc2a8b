import Bitplane.Proofs.Bytes
import Bitplane.Star

/-! # The layout of sample scripts

All frames of a sample have one size, so the place of each is known beforehand. What the
builder leaves behind is the stream that is written when the place of the target is known
beforehand too: each forward delta is written over the two bytes left open for it, and over
nothing else.
-/

namespace Bitplane

theorem length_star (points : Nat) (radius centerY centerX phase : Float) :
    (star points radius centerY centerX phase).length = points := by
  rw [star, List.length_map, List.length_range]

theorem length_polygonCommand (command : UInt8) (vertices : List (UInt8 × UInt8)) :
    (polygonCommand command vertices).length = 2 + 2 * vertices.length := by
  rw [polygonCommand, List.length_cons, List.length_cons, length_flatMap_pairs]
  omega

theorem length_flatMap_of_length_eq {α : Type} {part : α → List UInt8} {size : Nat}
    (h : ∀ a, (part a).length = size) (items : List α) :
    (items.flatMap part).length = items.length * size := by
  induction items with
  | nil => rw [List.flatMap_nil, List.length_nil, List.length_nil, Nat.zero_mul]
  | cons a rest ih =>
    rw [List.flatMap_cons, List.length_append, h, ih, List.length_cons, Nat.succ_mul,
      Nat.add_comm]

theorem Bytes.setWord_append (front back : List UInt8) (a b : UInt8) (n : Nat) :
    Bytes.setWord (front ++ a :: b :: back).toArray front.length n =
      (front ++ wordBytes n ++ back).toArray := by
  simp [Bytes.setWord, wordBytes, List.set_append_right]

namespace Sample

/-- The size of a record with this many vertices, or of a command that draws them. -/
def recordSize (vertices : Nat) : Nat := 2 + 2 * vertices

section

variable (polygons vertices : Nat)

def frameSize : Nat := 8 + polygons * recordSize vertices

/-- The offset of a frame; that of the target for the frame past the last. -/
def frameOffset (frame : Nat) : Nat := recordSize vertices + frame * frameSize polygons vertices

def offsets (frames : Nat) : Array Nat :=
  ((List.range frames).map (frameOffset polygons vertices)).toArray

/-- The place of a frame's tween payload. -/
def slot (frame : Nat) : Nat :=
  frameOffset polygons vertices frame + 2 + polygons * recordSize vertices

/-- A frame up to the forward delta of its tween. -/
def frameFront (frame : Nat) : List UInt8 :=
  (UInt8.ofNat polygons + 1) :: stars frame polygons vertices ++
    tweenCommand :: wordBytes (slot polygons vertices frame)

def frameBytes (forward frame : Nat) : List UInt8 :=
  frameFront polygons vertices frame ++ wordBytes forward ++
    [UInt8.ofNat (frame % tweenLength), UInt8.ofNat tweenLength]

/-- The forward delta of a frame's tween, in a script of `frames` frames. -/
def delta (frames frame : Nat) : Nat :=
  frameOffset polygons vertices frames - slot polygons vertices frame

/-- What stands in front of a frame, with forward deltas. -/
def front (forward : Nat → Nat) (frame : Nat) : List UInt8 :=
  source vertices ++
    (List.range frame).flatMap fun before => frameBytes polygons vertices (forward before) before

def streamSize (frames : Nat) : Nat := frameOffset polygons vertices frames + recordSize vertices

def stream (frames : Nat) : List UInt8 :=
  front polygons vertices (delta polygons vertices frames) frames ++ target vertices

end

variable {polygons vertices : Nat}

/-! ## Sizes -/

theorem length_source : (source vertices).length = recordSize vertices := by
  rw [source, length_polygonCommand, length_star, recordSize]

theorem length_target : (target vertices).length = recordSize vertices := by
  rw [target, length_polygonCommand, length_star, recordSize]

theorem length_stars (frame : Nat) :
    (stars frame polygons vertices).length = polygons * recordSize vertices := by
  have hstar : ∀ polygon, (polygonCommand (starCommand polygon)
      (starOf frame vertices polygon)).length = recordSize vertices := fun polygon => by
    rw [length_polygonCommand, starOf, length_star, recordSize]
  rw [stars, length_flatMap_of_length_eq hstar, List.length_range]

theorem length_frameFront (frame : Nat) :
    (frameFront polygons vertices frame).length = 4 + polygons * recordSize vertices := by
  simp only [frameFront, List.length_append, List.length_cons, length_stars, wordBytes,
    List.length_nil]
  omega

theorem length_frameBytes (forward frame : Nat) :
    (frameBytes polygons vertices forward frame).length = frameSize polygons vertices := by
  simp only [frameBytes, List.length_append, length_frameFront, wordBytes, List.length_cons,
    List.length_nil, frameSize]
  omega

theorem frameOffset_zero : frameOffset polygons vertices 0 = recordSize vertices := by
  rw [frameOffset, Nat.zero_mul, Nat.add_zero]

theorem frameOffset_succ (polygons vertices frame : Nat) :
    frameOffset polygons vertices (frame + 1) =
      frameOffset polygons vertices frame + frameSize polygons vertices := by
  rw [frameOffset, Nat.succ_mul, ← Nat.add_assoc, frameOffset]

theorem front_succ (forward : Nat → Nat) (frame : Nat) :
    front polygons vertices forward (frame + 1) =
      front polygons vertices forward frame ++
        frameBytes polygons vertices (forward frame) frame := by
  rw [front, List.range_succ, List.flatMap_append, ← List.append_assoc, List.flatMap_singleton,
    front]

theorem length_front (forward : Nat → Nat) (frame : Nat) :
    (front polygons vertices forward frame).length = frameOffset polygons vertices frame := by
  induction frame with
  | zero => rw [front, List.range_zero, List.flatMap_nil, List.append_nil, length_source,
      frameOffset_zero]
  | succ frame ih => rw [front_succ, List.length_append, ih, length_frameBytes, frameOffset_succ]

theorem length_stream (polygons vertices frames : Nat) :
    (stream polygons vertices frames).length = streamSize polygons vertices frames := by
  rw [stream, List.length_append, length_front, length_target, streamSize]

/-! ## Offsets -/

theorem frameOffset_le {frame frame' : Nat} (h : frame ≤ frame') :
    frameOffset polygons vertices frame ≤ frameOffset polygons vertices frame' :=
  Nat.add_le_add_left (Nat.mul_le_mul_right _ h) _

theorem size_offsets (frames : Nat) : (offsets polygons vertices frames).size = frames := by
  rw [offsets, List.size_toArray, List.length_map, List.length_range]

theorem getElem?_offsets {frame frames : Nat} (h : frame < frames) :
    (offsets polygons vertices frames)[frame]? = some (frameOffset polygons vertices frame) := by
  rw [offsets, List.getElem?_toArray, List.getElem?_map, List.getElem?_range h, Option.map_some]

theorem getD_offsets {frame frames : Nat} (h : frame ≤ frames) :
    (offsets polygons vertices frames).getD frame (frameOffset polygons vertices frames) =
      frameOffset polygons vertices frame := by
  rw [Array.getD_eq_getD_getElem?]
  rcases Nat.lt_or_eq_of_le h with hlt | rfl
  · rw [getElem?_offsets hlt, Option.getD_some]
  · rw [Array.getElem?_eq_none (Nat.le_of_eq (size_offsets frame)), Option.getD_none]

theorem lt_of_mem_offsets {frames offset : Nat} (h : offset ∈ offsets polygons vertices frames) :
    offset < streamSize polygons vertices frames := by
  rw [offsets, List.mem_toArray, List.mem_map] at h
  obtain ⟨frame, hframe, rfl⟩ := h
  have hle : frameOffset polygons vertices frame ≤ frameOffset polygons vertices frames :=
    frameOffset_le (Nat.le_of_lt (List.mem_range.mp hframe))
  rw [streamSize, recordSize]
  omega

theorem slot_lt (polygons vertices : Nat) {frame frames : Nat} (h : frame < frames) :
    slot polygons vertices frame < frameOffset polygons vertices frames := by
  have hnext := frameOffset_succ polygons vertices frame
  have hle : frameOffset polygons vertices (frame + 1) ≤ frameOffset polygons vertices frames :=
    frameOffset_le h
  rw [frameSize] at hnext
  rw [slot]
  omega

variable {frames frame : Nat}

/-! ## What stands where -/

theorem holds_source (frames polygons vertices : Nat) :
    Bytes.Holds (stream polygons vertices frames).toArray 0 (source vertices) :=
  ⟨[], _, List.append_assoc .., rfl⟩

theorem holds_target (frames polygons vertices : Nat) :
    Bytes.Holds (stream polygons vertices frames).toArray (frameOffset polygons vertices frames)
      (target vertices) :=
  ⟨_, [], (List.append_nil _).symm, length_front _ frames⟩

theorem front_eq_append (polygons vertices : Nat) (forward : Nat → Nat) (h : frame < frames) :
    ∃ behind, front polygons vertices forward frames =
      front polygons vertices forward frame ++
        frameBytes polygons vertices (forward frame) frame ++ behind := by
  induction frames with
  | zero => cases h
  | succ frames ih =>
    rw [front_succ]
    rcases Nat.lt_succ_iff_lt_or_eq.mp h with hlt | rfl
    · obtain ⟨behind, hbehind⟩ := ih hlt
      exact ⟨behind ++ frameBytes polygons vertices (forward frames) frames, by
        rw [hbehind, List.append_assoc _ behind]⟩
    · exact ⟨[], (List.append_nil _).symm⟩

theorem holds_frame (h : frame < frames) :
    Bytes.Holds (stream polygons vertices frames).toArray (frameOffset polygons vertices frame)
      (frameBytes polygons vertices (delta polygons vertices frames frame) frame) := by
  obtain ⟨behind, hbehind⟩ := front_eq_append polygons vertices (delta polygons vertices frames) h
  refine ⟨front polygons vertices (delta polygons vertices frames) frame,
    behind ++ target vertices, ?_, length_front _ frame⟩
  rw [stream, hbehind, List.append_assoc _ behind]

/-! ## The builder -/

theorem addFrame_eq {d : Draft} {frame : Nat}
    (hsize : d.data.size = frameOffset polygons vertices frame) :
    d.addFrame polygons vertices frame =
      { offsets := d.offsets.push (frameOffset polygons vertices frame)
        data := d.data ++ frameBytes polygons vertices 0 frame
        slots := d.slots.push (slot polygons vertices frame) } := by
  have hslot : ((d.data.push (UInt8.ofNat polygons + 1) ++
      stars frame polygons vertices).push tweenCommand).size = slot polygons vertices frame := by
    rw [Array.size_push, ← Array.length_toList, Array.toList_appendList, List.length_append,
      Array.length_toList, Array.size_push, length_stars, hsize, slot]
    omega
  rw [Draft.addFrame, hslot, hsize]
  refine congrArg (Draft.mk _ · _) (Array.toList_inj.mp ?_)
  simp [frameBytes, frameFront, wordBytes]

theorem draft_eq (frames polygons vertices : Nat) :
    draft frames polygons vertices =
      { offsets := offsets polygons vertices frames
        data := (front polygons vertices (fun _ => 0) frames).toArray
        slots := ((List.range frames).map (slot polygons vertices)).toArray } := by
  induction frames with
  | zero => simp [draft, Draft.start, front, offsets]
  | succ frames ih =>
    have hstep : draft (frames + 1) polygons vertices =
        (draft frames polygons vertices).addFrame polygons vertices frames := by
      rw [draft, List.range_succ, List.foldl_append]
      rfl
    have hsize : (draft frames polygons vertices).data.size =
        frameOffset polygons vertices frames := by
      rw [ih]
      exact length_front _ frames
    rw [hstep, addFrame_eq hsize, ih, front_succ]
    simp [List.range_succ, offsets]

theorem foldl_setWord_eq (frames : Nat) (behind : List UInt8) (count : Nat) {frame : Nat}
    {before : List UInt8} (hbefore : before.length = frameOffset polygons vertices frame) :
    ((List.range' frame count).map (slot polygons vertices)).foldl
        (fun data slot =>
          Bytes.setWord data (slot + 2) (frameOffset polygons vertices frames - slot))
        (before ++ ((List.range' frame count).flatMap fun f => frameBytes polygons vertices 0 f) ++
          behind).toArray =
      (before ++ ((List.range' frame count).flatMap fun f =>
        frameBytes polygons vertices (delta polygons vertices frames f) f) ++ behind).toArray := by
  -- on the frames still to come: a frame that has its delta moves over into `before`
  induction count generalizing frame before with
  | zero => rfl
  | succ count ih =>
    have hplace : (before ++ frameFront polygons vertices frame).length =
        slot polygons vertices frame + 2 := by
      rw [List.length_append, length_frameFront, hbefore, slot]
      omega
    have hnext : (before ++ frameBytes polygons vertices (delta polygons vertices frames frame)
        frame).length = frameOffset polygons vertices (frame + 1) := by
      rw [List.length_append, length_frameBytes, hbefore, frameOffset_succ]
    have hopen : wordBytes 0 = [0, 0] := rfl
    have hwrite := Bytes.setWord_append (before ++ frameFront polygons vertices frame)
      ([UInt8.ofNat (frame % tweenLength), UInt8.ofNat tweenLength] ++
        ((List.range' (frame + 1) count).flatMap fun f => frameBytes polygons vertices 0 f) ++
        behind) 0 0 (delta polygons vertices frames frame)
    have hrest := ih hnext
    rw [List.range'_succ, List.map_cons, List.foldl_cons, List.flatMap_cons, List.flatMap_cons,
      ← hplace]
    simp only [frameBytes, delta, hopen, List.append_assoc, List.cons_append,
      List.nil_append] at hwrite hrest ⊢
    rw [hwrite, hrest]

/-- What the builder makes is the stream with all its deltas. -/
theorem finish_draft (frames polygons vertices : Nat) :
    (draft frames polygons vertices).finish vertices =
      (stream polygons vertices frames).toArray := by
  have hsize : (front polygons vertices (fun _ => 0) frames).toArray.size =
      frameOffset polygons vertices frames := length_front _ frames
  have hsource : (source vertices).length = frameOffset polygons vertices 0 := by
    rw [length_source, frameOffset_zero]
  have hwritten := foldl_setWord_eq frames (target vertices) frames hsource
  rw [← List.range_eq_range'] at hwritten
  rw [draft_eq, Draft.finish, hsize, List.foldl_toArray, List.toArray_appendList]
  exact hwritten

theorem sampleScript_eq_ok_iff {frames : Nat} {table : Array Nat} {data : Bytes} :
    sampleScript frames polygons vertices = .ok (table, data) ↔
      polygons ≤ maxPolygons ∧ streamSize polygons vertices frames ≤ maxSize ∧
        table = offsets polygons vertices frames ∧
        data = (stream polygons vertices frames).toArray := by
  have hdraft := draft_eq frames polygons vertices
  have hdata := finish_draft frames polygons vertices
  have hsize := length_stream polygons vertices frames
  rw [← List.size_toArray] at hsize
  rw [sampleScript]
  dsimp only
  rw [hdata, hsize, hdraft]
  constructor
  · intro h
    split at h
    · cases h
    case isFalse hpolygons =>
      dsimp only at h
      split at h
      · cases h
      case isFalse hstream =>
        cases h
        exact ⟨Nat.le_of_not_lt hpolygons, Nat.le_of_not_lt hstream, rfl, rfl⟩
  · rintro ⟨hpolygons, hstream, rfl, rfl⟩
    rw [if_neg (Nat.not_lt_of_le hpolygons)]
    exact if_neg (Nat.not_lt_of_le hstream)

end Sample

end Bitplane
