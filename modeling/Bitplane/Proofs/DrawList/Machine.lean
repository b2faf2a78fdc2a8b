import Bitplane.Proofs.DrawList.Calls
import Bitplane.Proofs.Revision.Consistency
import Bitplane.Tween
import Mathlib

/-! # Decoding on a machine

The decoder counts offsets without a bound and has a plane for every byte of the polygon range.
Here it is spelled as a machine does it, on which a sum that 64 bits do not hold, a difference
below zero and a place outside of a string or a list have no result. For data and tables that
fit into memory every result is there, and it is the decoder's own.
-/

namespace Bitplane.Machine

/-- The sum of two numbers, if 64 bits hold it. -/
def add (a b : Nat) : Option Nat := if a + b < 2 ^ 64 then some (a + b) else none

/-- The difference of two numbers, if it is not below zero. -/
def sub (a b : Nat) : Option Nat := if b ≤ a then some (a - b) else none

/-- The bytes from one offset up to another, if the string has them. -/
def bytesBetween (data : Bytes) (start stop : Nat) : Option Bytes :=
  if start ≤ stop ∧ stop ≤ data.size then some (data.extract start stop) else none

/-! ## Tables -/

section Tables

variable (revision : Revision) (command : UInt8)

/-- Whether a byte is in the polygon range, whose last byte is added up first. -/
def isPolygon : Option Bool := do
  let last ← add revision.polygonBase.toNat (revision.planeMap.length - 1)
  return !revision.planeMap.isEmpty && revision.polygonBase ≤ command &&
    command ≤ UInt8.ofNat (min last 255)

def classify : Option CommandKind := do
  if ← isPolygon revision command then
    let place ← sub command.toNat revision.polygonBase.toNat
    let plane ← revision.planeMap[place]?
    return .polygon plane
  else match revision.tweens.find? (·.command == command) with
    | some tween => return .tween tween.plane
    | none => match revision.ignored.find? (·.command == command) with
      | some ignored => return .ignored ignored.payload
      | none => return .unknown

end Tables

/-! ## Commands

What a reading gives is an option inside of one: with the inner one it meets the end of the
data, with the outer one the machine has no result. -/

section Commands

variable (data : Bytes)

def readByte (offset : Nat) : Option (Option (UInt8 × Nat)) :=
  match data[offset]? with
  | none => return none
  | some byte => return some (byte, ← add offset 1)

/-- A payload, and the offset behind it. A sum too large for 64 bits is checked for, as it
lies behind the end of any data. -/
def take (offset len : Nat) : Option (Option (Bytes × Nat)) :=
  match (add offset len).bind (bytesBetween data offset) with
  | none => return none
  | some part => return some (part, ← add offset len)

def readPolygon (offset : Nat) : Option (Except FrameFault (Polygon × Nat)) := do
  match ← readByte data offset with
  | none => return .error (.unexpectedEnd offset 1)
  | some (count, start) =>
    -- twice a byte needs no check
    let stop ← add start (2 * count.toNat)
    match bytesBetween data start stop with
    | none => return .error (.unexpectedEnd start (← sub stop start))
    | some part => return .ok (⟨(bytePairs part.toList).map Vertex.ofBytes⟩, stop)

def preview (offset : Nat) : Option Bytes := do
  let stop := min (← add offset Decoder.previewSize) data.size
  bytesBetween data (min offset stop) stop

def readSkip (offset : Nat) (command : UInt8) (base bytes : Nat) :
    Option (Except FrameFault DrawOp × Nat) := do
  match ← take data base bytes with
  | none => return (.error (.unexpectedEnd base bytes), base)
  | some (_, stop) => return (.ok (.skip offset command bytes), stop)

def readTween (offset : Nat) (command plane : UInt8) (base : Nat) :
    Option (Except FrameFault DrawOp × Nat) := do
  match ← take data base tweenPayload with
  | none => return (.error (.unexpectedEnd base tweenPayload), base)
  | some (payload, stop) =>
    let back := wordOf (← payload[0]?) (← payload[1]?)
    let forward := wordOf (← payload[2]?) (← payload[3]?)
    match sub base back with
    | none => return (.error (.tween offset (.beforeStart base back)), stop)
    | some fromOffset =>
      let toOffset ← add base forward
      let ref : TweenRef := ⟨fromOffset, toOffset, ← payload[4]?, ← payload[5]?⟩
      return (.ok (.tween offset command plane ref), stop)

def readOp (revision : Revision) (offset : Nat) : Option (Except FrameFault DrawOp × Nat) := do
  match ← readByte data offset with
  | none => return (.error (.unexpectedEnd offset 1), offset)
  | some (command, base) =>
    match ← classify revision command with
    | .polygon plane =>
      match ← readPolygon data base with
      | .error fault => return (.error fault, base)
      | .ok (shape, stop) => return (.ok (.polygon offset command plane shape), stop)
    | .tween plane => readTween data offset command plane base
    | .ignored payload => readSkip data offset command base payload
    | .unknown =>
      let _ ← preview data base
      match revision.unknown with
      | .skip bytes => readSkip data offset command base bytes
      | .abort => return (.error (.unknownCommand offset command), base)

def resolve (revision : Revision) (target : Nat) : Option (Except TweenFault Polygon) :=
  match data[target]? with
  | none => return .error (.outOfBounds target)
  | some tag => do
    if !(← isPolygon revision tag) then return .error (.notAPolygon target tag)
    match data[← add target 1]? with
    | none => return .error (.truncated target 2)
    | some count =>
      let start ← add target 2
      let stop ← add start (2 * count.toNat)
      let needed ← sub stop target
      match bytesBetween data start stop with
      | none => return .error (.truncated target needed)
      | some part => return .ok ⟨(bytePairs part.toList).map Vertex.ofBytes⟩

end Commands

/-! ## Decoders -/

section Decoders

variable (d : Decoder)

/-- The draw count, read once more where the header is. -/
def drawCount : Option (Option UInt8) :=
  match d.drawCount with
  | none => return none
  | some _ => return some (← d.data[d.start]?)

def header : Option (Except (FrameFault × Decoder) Decoder) :=
  match d.drawCount with
  | some _ => return .ok d
  | none => do
    match ← readByte d.data d.position with
    | none =>
      return .error (.unexpectedEnd d.position 1, { d with phase := .failed })
    | some (count, stop) =>
      let opened : Decoder :=
        { d with position := stop, drawCount := some count, remaining := count.toNat }
      match d.revision.maxDraws with
      | none => return .ok opened
      | some most =>
        if count = 0 ∨ most < count then
          return .error (.drawCount d.position count most,
            { d with position := stop, phase := .failed })
        else return .ok opened

def nextCommand : Option (Decoder.Answer × Decoder) :=
  match d.remaining with
  | 0 => return (none, { d with phase := .finished })
  | remaining + 1 => do
    match ← readOp d.data d.revision d.position with
    | (.ok op, stop) => return (some (.ok op), { d with position := stop, remaining := remaining })
    | (.error fault, stop) =>
      return (some (.error fault),
        { d with position := stop, remaining := remaining, phase := .failed })

def next : Option (Decoder.Answer × Decoder) :=
  match d.phase with
  | .running => do
    match ← header d with
    | .ok d => nextCommand d
    | .error (fault, d) => return (some (.error fault), d)
  | _ => return (none, d)

def calls : Nat → Option (List Decoder.Answer × Decoder)
  | 0 => return ([], d)
  | n + 1 => do
    let (answers, d) ← calls n
    let (answer, d) ← next d
    return (answers ++ [answer], d)

end Decoders

/-! ## Results that are there -/

variable {revision : Revision} {data : Bytes} {offset start stop len a b : Nat} {command : UInt8}

theorem add_of_lt (h : a + b < 2 ^ 64) : add a b = some (a + b) := if_pos h

theorem sub_of_le (h : b ≤ a) : sub a b = some (a - b) := if_pos h

theorem sub_of_lt (h : a < b) : sub a b = none := if_neg (Nat.not_le_of_lt h)

theorem sub_add_left (a b : Nat) : sub (a + b) a = some b := by
  rw [sub_of_le (Nat.le_add_right a b), Nat.add_sub_cancel_left]

theorem bytesBetween_add (data : Bytes) (start len : Nat) :
    bytesBetween data start (start + len) = data.slice? start len := by
  simp [bytesBetween, Bytes.slice?]

theorem isPolygon_eq (hmap : revision.planeMap.length < 2 ^ 63) (command : UInt8) :
    isPolygon revision command = some (revision.isPolygon command) := by
  have hbase := revision.polygonBase.toNat_lt
  rw [isPolygon, add_of_lt (by omega)]
  rfl

theorem classify_eq (hmap : revision.planeMap.length < 2 ^ 63) (command : UInt8) :
    classify revision command = some (revision.classify command) := by
  rw [classify, isPolygon_eq hmap]
  by_cases hpolygon : revision.isPolygon command
  · obtain ⟨hbase, plane, hplane, hclass⟩ := Revision.exists_plane_of_isPolygon hpolygon
    simp [hpolygon, sub_of_le hbase, hplane, hclass]
  · simp only [Revision.classify, hpolygon]
    cases revision.tweens.find? (·.command == command) with
    | some => rfl
    | none => cases revision.ignored.find? (·.command == command) <;> rfl

/-! ## Readings -/

section Readings

variable (hdata : data.size < 2 ^ 63)
include hdata

theorem readByte_eq (offset : Nat) :
    readByte data offset = some (data[offset]?.map (·, offset + 1)) := by
  cases hbyte : data[offset]? with
  | none => simp [readByte, hbyte]
  | some byte =>
    have hlt := (Array.getElem?_eq_some_iff.mp hbyte).1
    have hadd : add offset 1 = some (offset + 1) := add_of_lt (by omega)
    simp [readByte, hbyte, hadd]

theorem take_eq (offset len : Nat) :
    take data offset len = some ((data.slice? offset len).map (·, offset + len)) := by
  by_cases hfit : offset + len < 2 ^ 64
  · rw [take, add_of_lt hfit, Option.bind_some, bytesBetween_add]
    cases data.slice? offset len <;> rfl
  · have hnone : data.slice? offset len = none := Bytes.slice?_eq_none_iff.mpr (by omega)
    rw [take, add, if_neg hfit, hnone]
    rfl

theorem readPolygon_eq (offset : Nat) :
    readPolygon data offset = some (Polygon.read data offset) := by
  rw [readPolygon, readByte_eq hdata, Polygon.read]
  cases hbyte : data[offset]? with
  | none => rfl
  | some count =>
    have hlt := (Array.getElem?_eq_some_iff.mp hbyte).1
    have hcount := count.toNat_lt
    have hstop : add (offset + 1) (2 * count.toNat) = some (offset + 1 + 2 * count.toNat) :=
      add_of_lt (by omega)
    simp only [Option.map_some, Option.bind_eq_bind, Option.bind_some, hstop, bytesBetween_add]
    cases data.slice? (offset + 1) (2 * count.toNat) with
    | none => simp [sub_add_left]
    | some => rfl

theorem preview_eq (hle : offset ≤ data.size) :
    preview data offset = some (data.extract offset (offset + Decoder.previewSize)) := by
  rw [preview, add_of_lt (show offset + Decoder.previewSize < 2 ^ 64 by
    simp only [Decoder.previewSize]; omega)]
  have hstart : min offset (min (offset + Decoder.previewSize) data.size) = offset := by omega
  simp only [Option.bind_eq_bind, Option.bind_some, hstart, bytesBetween]
  rw [if_pos (by omega)]
  congr 1
  exact Array.ext_getElem? fun i => by
    rw [Array.getElem?_extract, Array.getElem?_extract]
    congr 2
    omega

theorem readSkip_eq (offset : Nat) (command : UInt8) (bytes : Nat) :
    readSkip data offset command (offset + 1) bytes =
      some (DrawOp.readSkip data offset command bytes) := by
  rw [readSkip, take_eq hdata, DrawOp.readSkip]
  cases data.slice? (offset + 1) bytes <;> rfl

theorem readTween_eq (command plane : UInt8) (hle : offset + 1 ≤ data.size) :
    readTween data offset command plane (offset + 1) =
      some (match data.slice? (offset + 1) tweenPayload with
        | none => (.error (.unexpectedEnd (offset + 1) tweenPayload), offset + 1)
        | some payload =>
          match TweenRef.ofPayload (offset + 1) payload with
          | .error fault => (.error (.tween offset fault), offset + 1 + tweenPayload)
          | .ok ref => (.ok (.tween offset command plane ref), offset + 1 + tweenPayload)) := by
  rw [readTween, take_eq hdata]
  cases hslice : data.slice? (offset + 1) tweenPayload with
  | none => rfl
  | some payload =>
    have hsize : payload.size = 6 := Bytes.size_of_slice? hslice
    have hbyte : ∀ i < 6, payload[i]? = some (payload.getD i 0) := by
      intro i hi
      rw [Array.getElem?_eq_getElem (hsize ▸ hi), Array.getD_eq_getD_getElem?,
        Array.getElem?_eq_getElem (hsize ▸ hi), Option.getD_some]
    have hforward := wordOf_lt (payload.getD 2 0) (payload.getD 3 0)
    have hadd : add (offset + 1) (wordOf (payload.getD 2 0) (payload.getD 3 0)) =
        some (offset + 1 + wordOf (payload.getD 2 0) (payload.getD 3 0)) := add_of_lt (by omega)
    simp only [Option.map_some, Option.bind_eq_bind, Option.bind_some, hbyte 0 (by decide),
      hbyte 1 (by decide), hbyte 2 (by decide), hbyte 3 (by decide), hbyte 4 (by decide),
      hbyte 5 (by decide), hadd, TweenRef.ofPayload]
    by_cases hback : wordOf (payload.getD 0 0) (payload.getD 1 0) ≤ offset + 1
    · rw [sub_of_le hback, if_pos hback]
      rfl
    · rw [sub_of_lt (Nat.lt_of_not_le hback), if_neg hback]
      rfl

theorem readOp_eq (hmap : revision.planeMap.length < 2 ^ 63) (offset : Nat) :
    readOp data revision offset = some (DrawOp.read revision data offset) := by
  rw [readOp, readByte_eq hdata, DrawOp.read]
  cases hbyte : data[offset]? with
  | none => rfl
  | some command =>
    have hle : offset + 1 ≤ data.size := (Array.getElem?_eq_some_iff.mp hbyte).1
    simp only [Option.map_some, Option.bind_eq_bind, Option.bind_some, classify_eq hmap]
    cases revision.classify command with
    | polygon plane =>
      simp only [readPolygon_eq hdata, Option.bind_some]
      rcases Polygon.read data (offset + 1) with fault | ⟨shape, stop⟩ <;> rfl
    | tween plane => exact readTween_eq hdata command plane hle
    | ignored payload => exact readSkip_eq hdata offset command payload
    | unknown =>
      simp only [preview_eq hdata hle, Option.bind_some]
      cases revision.unknown with
      | skip bytes => exact readSkip_eq hdata offset command bytes
      | abort => rfl

theorem resolve_eq (hmap : revision.planeMap.length < 2 ^ 63) (target : Nat) :
    resolve data revision target = some (Tween.resolve revision data target) := by
  rw [resolve, Tween.resolve]
  cases htag : data[target]? with
  | none => rfl
  | some tag =>
    have hlt := (Array.getElem?_eq_some_iff.mp htag).1
    have hcountAt : add target 1 = some (target + 1) := add_of_lt (by omega)
    have hstart : add target 2 = some (target + 2) := add_of_lt (by omega)
    simp only [isPolygon_eq hmap, Option.bind_eq_bind, Option.bind_some]
    by_cases hpolygon : revision.isPolygon tag
    · simp only [hpolygon, hcountAt, hstart, Option.bind_some]
      cases data[target + 1]? with
      | none => rfl
      | some count =>
        have hcount := count.toNat_lt
        have hstop : add (target + 2) (2 * count.toNat) = some (target + 2 + 2 * count.toNat) :=
          add_of_lt (by omega)
        have hneeded : sub (target + 2 + 2 * count.toNat) target = some (2 + 2 * count.toNat) := by
          rw [Nat.add_assoc, sub_add_left]
        simp only [Option.bind_some, hstop, hneeded, bytesBetween_add]
        cases data.slice? (target + 2) (2 * count.toNat) <;> rfl
    · simp only [hpolygon]
      rfl

end Readings

/-! ## Calls -/

section Calls

variable {d : Decoder}

theorem header_eq (hdata : d.data.size < 2 ^ 63) : header d = some d.header := by
  rw [header, Decoder.header]
  cases d.drawCount with
  | some => rfl
  | none =>
    simp only [readByte_eq hdata, Option.bind_eq_bind, Option.bind_some, readDrawCount]
    cases hbyte : d.data[d.position]? with
    | none =>
      have hge := Array.getElem?_eq_none_iff.mp hbyte
      simp only [Option.map_none, if_neg (Nat.not_lt_of_le hge)]
      rfl
    | some count =>
      have hlt := (Array.getElem?_eq_some_iff.mp hbyte).1
      simp only [Option.map_some, if_pos hlt]
      cases d.revision.maxDraws with
      | none => rfl
      | some most =>
        dsimp only
        split <;> rfl

theorem nextCommand_eq (hdata : d.data.size < 2 ^ 63)
    (hmap : d.revision.planeMap.length < 2 ^ 63) : nextCommand d = some d.nextCommand := by
  rw [nextCommand, Decoder.nextCommand]
  cases d.remaining with
  | zero => rfl
  | succ remaining =>
    simp only [readOp_eq hdata hmap, Option.bind_eq_bind, Option.bind_some]
    rcases DrawOp.read d.revision d.data d.position with ⟨fault | op, stop⟩ <;> rfl

theorem next_eq (hdata : d.data.size < 2 ^ 63) (hmap : d.revision.planeMap.length < 2 ^ 63) :
    next d = some d.next := by
  rw [next, Decoder.next]
  cases d.phase with
  | running =>
    simp only [header_eq hdata, Option.bind_eq_bind, Option.bind_some]
    rcases d.headed_or_refused with ⟨h, hok, hheaded⟩ | ⟨fault, -, -, herror⟩
    · obtain ⟨hrevision, hsource⟩ := hheaded.source_eq
      rw [hok]
      exact nextCommand_eq (hsource.symm ▸ hdata) (hrevision.symm ▸ hmap)
    · rw [herror]
      rfl
  | finished => rfl
  | failed => rfl

theorem calls_eq (hdata : d.data.size < 2 ^ 63) (hmap : d.revision.planeMap.length < 2 ^ 63)
    (n : Nat) : calls d n = some (d.answers n, d.afterCalls n) := by
  induction n with
  | zero => rfl
  | succ n ih =>
    obtain ⟨hrevision, hsource, -⟩ := d.source_afterCalls n
    rw [calls, ih]
    simp only [Option.bind_eq_bind, Option.bind_some,
      next_eq (hsource.symm ▸ hdata) (hrevision.symm ▸ hmap)]
    rfl

theorem drawCount_eq (revision : Revision) (data : Bytes) (start n : Nat) :
    let d := (Decoder.ofStart revision data start).afterCalls n
    drawCount d = some d.drawCount := by
  intro d
  obtain ⟨-, hsource, hstart⟩ := (Decoder.ofStart revision data start).source_afterCalls n
  rw [drawCount]
  cases hcount : d.drawCount with
  | none => rfl
  | some count =>
    have hread := (Decoder.drawCount_afterCalls_iff.mp hcount).2
    have hbyte : d.data[d.start]? = some count := by
      rw [hsource, hstart]
      exact (readDrawCount_eq_ok_iff.mp hread).1
    rw [hbyte]
    rfl

end Calls

/-- Whatever the data, the table and the start, as long as the first two fit into memory: no
sum of the decoder's overflows and no place that it looks up is missing, however often it is
called, nor in the draw count, the meaning of a byte or the records of tweens. A decoder that
starts in the data never goes back and never leaves the data. -/
theorem decoding_needs_no_more_than_memory {revision : Revision} {data : Bytes}
    (hdata : data.size < 2 ^ 63) (hmap : revision.planeMap.length < 2 ^ 63) (start : Nat) :
    let d := Decoder.ofStart revision data start
    (∀ n, calls d n = some (d.answers n, d.afterCalls n)) ∧
    (∀ n, drawCount (d.afterCalls n) = some (d.afterCalls n).drawCount) ∧
    (∀ command, classify revision command = some (revision.classify command)) ∧
    (∀ target, resolve data revision target = some (Tween.resolve revision data target)) ∧
    (start ≤ data.size → ∀ n, (d.afterCalls n).position ≤ data.size ∧
      (d.afterCalls n).position ≤ (d.afterCalls (n + 1)).position) := by
  intro d
  refine ⟨calls_eq hdata hmap, drawCount_eq revision data start, classify_eq hmap,
    resolve_eq hdata hmap, fun hstart n => ⟨Decoder.position_afterCalls_le hstart n, ?_⟩⟩
  exact (d.afterCalls n).position_next.1

/-- A table that no check accepts: its polygon range goes on behind the last byte, and two
payloads are as long as 64 bits can say. -/
theorem decoding_needs_no_more_than_memory_ill_formed :
    let revision : Revision :=
      ⟨"", 9, 0xFE, [0, 1, 2, 3], [], [⟨0x10, 2 ^ 64 - 1⟩], .skip (2 ^ 64 - 1), none⟩
    let data : Bytes := #[2, 0xFF, 0, 0x10, 7]
    let d := Decoder.ofStart revision data 0
    data.size < 2 ^ 63 ∧ revision.planeMap.length < 2 ^ 63 ∧
      revision.validate = .error (.planeCount 9 4) ∧
      calls d 3 = some (d.answers 3, d.afterCalls 3) ∧
      d.answers 3 = [some (.ok (.polygon 1 0xFF 1 ⟨[]⟩)),
        some (.error (.unexpectedEnd 4 (2 ^ 64 - 1))), none] ∧
      classify revision 0xFF = some (.polygon 1) ∧
      resolve data revision 1 = some (.ok ⟨[]⟩) ∧
      (d.afterCalls 2).position ≤ (d.afterCalls 3).position := by
  intro revision data d
  have hdata : data.size < 2 ^ 63 := by decide
  have hmap : revision.planeMap.length < 2 ^ 63 := by decide
  obtain ⟨hcalls, -, hclassify, hresolve, hposition⟩ :=
    decoding_needs_no_more_than_memory hdata hmap 0
  exact ⟨hdata, hmap, by rfl, hcalls 3, by cbv, hclassify 0xFF,
    hresolve 1, (hposition (by decide) 2).2⟩

end Bitplane.Machine
