import Bitplane.DrawList.Decoder
import Bitplane.Proofs.Revision.Consistency

/-! # What a draw list gives

A decoder gives operations, then at most one fault, then nothing. It reads every
operation from the stream by its own revision, so that an operation names no plane
but one of the revision.
-/

namespace Bitplane

/-- Whether a fault lies in the stream and not in the planes drawn into. -/
def FrameFault.inStream : FrameFault → Bool
  | .planeOutOfRange .. => false
  | _ => true

variable {revision : Revision} {data : Bytes} {offset stop : Nat} {fault : FrameFault}

theorem Polygon.inStream_of_read (h : Polygon.read data offset = .error fault) :
    fault.inStream := by
  unfold Polygon.read at h
  split at h
  · cases h
    rfl
  dsimp only at h
  split at h
  · cases h
    rfl
  · cases h

namespace DrawOp

variable {op : DrawOp} {plane : UInt8}

/-- What the command at an offset can be read as, and where its reading ends. -/
inductive Reads (revision : Revision) (data : Bytes) (offset : Nat) : DrawOp → Nat → Prop
  | polygon {command plane : UInt8} {shape : Polygon} {stop : Nat} :
      data[offset]? = some command → revision.classify command = .polygon plane →
      Polygon.read data (offset + 1) = .ok (shape, stop) →
      Reads revision data offset (.polygon offset command plane shape) stop
  | tween {command plane : UInt8} {payload : Bytes} {ref : TweenRef} :
      data[offset]? = some command → revision.classify command = .tween plane →
      data.slice? (offset + 1) tweenPayload = some payload →
      TweenRef.ofPayload (offset + 1) payload = .ok ref →
      Reads revision data offset (.tween offset command plane ref) (offset + 1 + tweenPayload)
  | ignored {command : UInt8} {bytes : Nat} :
      data[offset]? = some command → revision.classify command = .ignored bytes →
      offset + 1 + bytes ≤ data.size →
      Reads revision data offset (.skip offset command bytes) (offset + 1 + bytes)
  | unknown {command : UInt8} {bytes : Nat} :
      data[offset]? = some command → revision.classify command = .unknown →
      revision.unknown = .skip bytes → offset + 1 + bytes ≤ data.size →
      Reads revision data offset (.skip offset command bytes) (offset + 1 + bytes)

theorem readSkip_eq_ok {command : UInt8} {bytes : Nat}
    (h : readSkip data offset command bytes = (.ok op, stop)) :
    offset + 1 + bytes ≤ data.size ∧ op = .skip offset command bytes ∧
      stop = offset + 1 + bytes := by
  unfold readSkip at h
  split at h
  · cases h
  case h_2 hslice =>
    cases h
    exact ⟨(Bytes.slice?_eq_some_iff.mp hslice).1, rfl, rfl⟩

theorem reads_of_read (h : read revision data offset = (.ok op, stop)) :
    Reads revision data offset op stop := by
  unfold read at h
  split at h
  · cases h
  case h_2 command hbyte =>
    split at h
    case h_1 plane hclass =>
      split at h
      · cases h
      case h_2 hshape =>
        cases h
        exact .polygon hbyte hclass hshape
    case h_2 plane hclass =>
      split at h
      · cases h
      case h_2 payload hslice =>
        split at h
        · cases h
        case h_2 ref href =>
          cases h
          exact .tween hbyte hclass hslice href
    case h_3 bytes hclass =>
      obtain ⟨hle, rfl, rfl⟩ := readSkip_eq_ok h
      exact .ignored hbyte hclass hle
    case h_4 hclass =>
      split at h
      case h_1 bytes hunknown =>
        obtain ⟨hle, rfl, rfl⟩ := readSkip_eq_ok h
        exact .unknown hbyte hclass hunknown hle
      · cases h

theorem inStream_of_readSkip {command : UInt8} {bytes : Nat}
    (h : readSkip data offset command bytes = (.error fault, stop)) : fault.inStream := by
  unfold readSkip at h
  split at h
  · cases h
    rfl
  · cases h

theorem inStream_of_read (h : read revision data offset = (.error fault, stop)) :
    fault.inStream := by
  unfold read at h
  split at h
  · cases h
    rfl
  split at h
  case h_1 =>
    split at h
    case h_1 hshape =>
      cases h
      exact Polygon.inStream_of_read hshape
    · cases h
  case h_2 =>
    split at h
    · cases h
      rfl
    split at h
    · cases h
      rfl
    · cases h
  case h_3 => exact inStream_of_readSkip h
  case h_4 =>
    split at h
    · exact inStream_of_readSkip h
    · cases h
      rfl

theorem Reads.plane_mem (h : Reads revision data offset op stop)
    (hplane : op.plane? = some plane) : plane ∈ revision.planes := by
  cases h with
  | polygon _ hclass _ =>
    cases hplane
    exact Revision.mem_planes_of_polygon hclass
  | tween _ hclass _ _ =>
    cases hplane
    exact Revision.mem_planes_of_tween hclass
  | ignored => cases hplane
  | unknown => cases hplane

end DrawOp

theorem inStream_of_readDrawCount {start : Nat}
    (h : readDrawCount revision data start = .error fault) : fault.inStream := by
  unfold readDrawCount at h
  split at h
  · cases h
    rfl
  split at h
  · cases h
  split at h
  · cases h
    rfl
  · cases h

namespace Decoder

variable {d after : Decoder} {op : DrawOp} {plane : UInt8}

inductive Headed (d : Decoder) : Decoder → Prop
  | before {count : UInt8} : d.drawCount = some count → Headed d d
  | now {count : UInt8} : d.drawCount = none →
      readDrawCount d.revision d.data d.position = .ok count →
      Headed d { d with
        position := d.position + 1, drawCount := some count, remaining := count.toNat }

/-- What a call of `next` can give, and the decoder after it. -/
inductive Turn (d : Decoder) : Option (Except FrameFault DrawOp) → Decoder → Prop
  | stopped : d.phase ≠ .running → Turn d none d
  | refused {fault : FrameFault} : d.phase = .running → d.drawCount = none →
      readDrawCount d.revision d.data d.position = .error fault →
      Turn d (some (.error fault))
        { d with
          position := if d.position < d.data.size then d.position + 1 else d.position
          phase := .failed }
  | finished {h : Decoder} : d.phase = .running → Headed d h → h.remaining = 0 →
      Turn d none { h with phase := .finished }
  | read {h : Decoder} {remaining : Nat} {op : DrawOp} {stop : Nat} : d.phase = .running →
      Headed d h → h.remaining = remaining + 1 →
      DrawOp.read h.revision h.data h.position = (.ok op, stop) →
      Turn d (some (.ok op)) { h with position := stop, remaining := remaining }
  | failed {h : Decoder} {remaining : Nat} {fault : FrameFault} {stop : Nat} :
      d.phase = .running → Headed d h → h.remaining = remaining + 1 →
      DrawOp.read h.revision h.data h.position = (.error fault, stop) →
      Turn d (some (.error fault))
        { h with position := stop, remaining := remaining, phase := .failed }

theorem headed_or_refused (d : Decoder) :
    (∃ h, d.header = .ok h ∧ Headed d h) ∨
      ∃ fault, d.drawCount = none ∧ readDrawCount d.revision d.data d.position = .error fault ∧
        d.header = .error (fault,
          { d with
            position := if d.position < d.data.size then d.position + 1 else d.position
            phase := .failed }) := by
  unfold header
  split
  case h_1 count hcount => exact .inl ⟨d, rfl, .before hcount⟩
  case h_2 hnone =>
    split
    case h_1 count hcount => exact .inl ⟨_, rfl, .now hnone hcount⟩
    case h_2 fault hfault => exact .inr ⟨fault, hnone, hfault, rfl⟩

theorem turn (d : Decoder) : Turn d d.next.1 d.next.2 := by
  unfold next
  split
  case h_1 hphase =>
    rcases d.headed_or_refused with ⟨h, hok, hheaded⟩ | ⟨fault, hnone, hfault, herror⟩
    · rw [hok]
      dsimp only
      unfold nextCommand
      split
      case h_1 hzero => exact .finished hphase hheaded hzero
      case h_2 remaining hsucc =>
        split
        case h_1 hread => exact .read hphase hheaded hsucc hread
        case h_2 hread => exact .failed hphase hheaded hsucc hread
    · rw [herror]
      exact .refused hphase hnone hfault
  case h_2 hphase => exact .stopped hphase

theorem Headed.source_eq {h : Decoder} (hd : Headed d h) :
    h.revision = d.revision ∧ h.data = d.data := by
  cases hd <;> exact ⟨rfl, rfl⟩

theorem source_next (d : Decoder) : d.next.2.revision = d.revision ∧ d.next.2.data = d.data := by
  have h := d.turn
  generalize d.next.1 = outcome, d.next.2 = after at h
  cases h with
  | stopped => exact ⟨rfl, rfl⟩
  | refused => exact ⟨rfl, rfl⟩
  | finished _ hheaded => exact hheaded.source_eq
  | read _ hheaded => exact hheaded.source_eq
  | failed _ hheaded => exact hheaded.source_eq

theorem reads_of_next (h : d.next.1 = some (.ok op)) :
    ∃ offset, DrawOp.Reads d.revision d.data offset op d.next.2.position := by
  have hturn := d.turn
  rw [h] at hturn
  generalize d.next.2 = after at hturn
  cases hturn with
  | read _ hheaded _ hread =>
    obtain ⟨hrevision, hdata⟩ := hheaded.source_eq
    rw [hrevision, hdata] at hread
    exact ⟨_, DrawOp.reads_of_read hread⟩

theorem inStream_of_next (h : d.next.1 = some (.error fault)) : fault.inStream := by
  have hturn := d.turn
  rw [h] at hturn
  generalize d.next.2 = after at hturn
  cases hturn with
  | refused _ _ hcount => exact inStream_of_readDrawCount hcount
  | failed _ _ _ hread => exact DrawOp.inStream_of_read hread

theorem failed_of_next (h : d.next.1 = some (.error fault)) : d.next.2.phase = .failed := by
  have hturn := d.turn
  rw [h] at hturn
  generalize d.next.2 = after at hturn
  cases hturn <;> rfl

theorem next_of_not_running (h : d.phase ≠ .running) : d.next = (none, d) := by
  unfold next
  split
  case h_1 hphase => exact absurd hphase h
  case h_2 => rfl

/-! ## Runs -/

/-- The operations of steps up to the first that gives none. -/
def leadingOps : List Step → List DrawOp
  | [] => []
  | s :: rest => match s.outcome with
    | some (.ok op) => op :: leadingOps rest
    | _ => []

/-- The fault of the first step that gives no operation, if it gives one. -/
def endingFault? : List Step → Option FrameFault
  | [] => none
  | s :: rest => match s.outcome with
    | some (.ok _) => endingFault? rest
    | some (.error fault) => some fault
    | none => none

def fault? (d : Decoder) : Option FrameFault :=
  d.outcomes.findSome? fun
    | .ok _ => none
    | .error fault => some fault

theorem outcomes_of_not_running (limit : Nat) (h : d.phase ≠ .running) :
    (stepsUpTo limit d).filterMap Step.outcome = [] := by
  cases limit with
  | zero => rfl
  | succ limit => simp [stepsUpTo, step, next_of_not_running h]

theorem leadingOps_stepsUpTo (limit : Nat) (d : Decoder) :
    leadingOps (stepsUpTo limit d) =
      ((stepsUpTo limit d).filterMap Step.outcome).filterMap fun
        | .ok op => some op
        | .error _ => none := by
  induction limit generalizing d with
  | zero => rfl
  | succ limit ih =>
    rw [stepsUpTo]
    split
    case h_1 hnone => simp [leadingOps, hnone]
    case h_2 outcome hsome =>
      cases outcome with
      | ok op => simp [leadingOps, hsome, ih]
      | error fault =>
        have hfailed : d.step.after.phase ≠ .running := by
          rw [step, failed_of_next hsome]
          decide
        simp [leadingOps, hsome, outcomes_of_not_running limit hfailed]

theorem endingFault?_stepsUpTo (limit : Nat) (d : Decoder) :
    endingFault? (stepsUpTo limit d) =
      ((stepsUpTo limit d).filterMap Step.outcome).findSome? fun
        | .ok _ => none
        | .error fault => some fault := by
  induction limit generalizing d with
  | zero => rfl
  | succ limit ih =>
    rw [stepsUpTo]
    split
    case h_1 hnone => simp [endingFault?, hnone]
    case h_2 outcome hsome =>
      cases outcome with
      | ok op => simp [endingFault?, hsome, ih]
      | error fault => simp [endingFault?, hsome]

theorem leadingOps_steps (d : Decoder) : leadingOps d.steps = d.ops :=
  leadingOps_stepsUpTo d.budget d

theorem endingFault?_steps (d : Decoder) : endingFault? d.steps = d.fault? :=
  endingFault?_stepsUpTo d.budget d

theorem eq_step_of_mem_stepsUpTo {limit : Nat} {s : Step} (h : s ∈ stepsUpTo limit d) :
    ∃ e : Decoder, s = e.step ∧ e.revision = d.revision ∧ e.data = d.data := by
  induction limit generalizing d with
  | zero => cases h
  | succ limit ih =>
    rw [stepsUpTo] at h
    split at h
    case h_1 =>
      obtain rfl := List.mem_singleton.mp h
      exact ⟨d, rfl, rfl, rfl⟩
    case h_2 =>
      rcases List.mem_cons.mp h with rfl | h
      · exact ⟨d, rfl, rfl, rfl⟩
      · obtain ⟨e, hs, hrevision, hdata⟩ := ih h
        exact ⟨e, hs, hrevision.trans d.source_next.1, hdata.trans d.source_next.2⟩

theorem reads_of_mem_ops (h : op ∈ d.ops) :
    ∃ offset stop, DrawOp.Reads d.revision d.data offset op stop := by
  simp only [ops, outcomes, List.mem_filterMap] at h
  obtain ⟨outcome, ⟨s, hs, hsome⟩, hop⟩ := h
  obtain ⟨e, rfl, hrevision, hdata⟩ := eq_step_of_mem_stepsUpTo hs
  cases outcome with
  | ok =>
    cases hop
    obtain ⟨offset, hreads⟩ := reads_of_next hsome
    exact ⟨offset, _, hrevision ▸ hdata ▸ hreads⟩
  | error => cases hop

theorem plane_lt_of_mem_ops (hr : d.revision.Consistent) (h : op ∈ d.ops)
    (hplane : op.plane? = some plane) : plane.toNat < d.revision.planeCount := by
  obtain ⟨offset, stop, hreads⟩ := reads_of_mem_ops h
  exact hr.plane_lt plane (hreads.plane_mem hplane)

theorem inStream_of_fault? (h : d.fault? = some fault) : fault.inStream := by
  obtain ⟨outcome, hmem, hfault⟩ := List.exists_of_findSome?_eq_some h
  obtain ⟨s, hs, hsome⟩ := List.mem_filterMap.mp hmem
  obtain ⟨e, rfl, -, -⟩ := eq_step_of_mem_stepsUpTo hs
  cases outcome with
  | ok => cases hfault
  | error =>
    cases hfault
    exact inStream_of_next hsome

end Decoder

end Bitplane
