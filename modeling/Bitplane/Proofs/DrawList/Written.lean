import Bitplane.Proofs.Bytes
import Bitplane.Proofs.DrawList.Runs
import Bitplane.Star

/-! # Written draw lists

A draw list is written as the number of its commands and the commands one behind the
other. Wherever it stands in a stream, a decoder gives what the commands stand for by the
table of its revision, and finishes right behind the last.
-/

namespace Bitplane

/-- A command, field by field. -/
inductive DrawCommand where
  | polygon (command : UInt8) (pairs : List (UInt8 × UInt8))
  | tween (command : UInt8) (back forward : UInt16) (t tMax : UInt8)
  | ignored (command : UInt8) (payload : List UInt8)

namespace DrawCommand

def bytes : DrawCommand → List UInt8
  | .polygon command pairs => polygonCommand command pairs
  | .tween command back forward t tMax =>
    command :: (wordBytes back.toNat ++ wordBytes forward.toNat ++ [t, tMax])
  | .ignored command payload => command :: payload

/-- What a command at an offset stands for by the table of a revision. -/
inductive Means (r : Revision) (offset : Nat) : DrawCommand → DrawOp → Prop
  | polygon {i : Nat} {command plane : UInt8} {pairs : List (UInt8 × UInt8)} :
      r.planeMap[i]? = some plane → command.toNat = r.polygonBase.toNat + i →
      pairs.length ≤ Polygon.maxRecorded →
      Means r offset (.polygon command pairs)
        (.polygon offset command plane ⟨pairs.map Vertex.ofBytes⟩)
  | tween {entry : TweenCommand} {back forward : UInt16} {t tMax : UInt8} :
      entry ∈ r.tweens → back.toNat ≤ offset + 1 →
      Means r offset (.tween entry.command back forward t tMax)
        (.tween offset entry.command entry.plane
          ⟨offset + 1 - back.toNat, offset + 1 + forward.toNat, t, tMax⟩)
  | ignored {entry : IgnoredCommand} {payload : List UInt8} :
      entry ∈ r.ignored → payload.length = entry.payload →
      Means r offset (.ignored entry.command payload) (.skip offset entry.command entry.payload)

/-- What commands one behind the other from an offset on stand for. -/
inductive MeansAll (r : Revision) : Nat → List DrawCommand → List DrawOp → Prop
  | nil {offset : Nat} : MeansAll r offset [] []
  | cons {offset : Nat} {c : DrawCommand} {op : DrawOp} {commands : List DrawCommand}
      {ops : List DrawOp} :
      Means r offset c op → MeansAll r (offset + c.bytes.length) commands ops →
      MeansAll r offset (c :: commands) (op :: ops)

end DrawCommand

def drawListBytes (commands : List DrawCommand) : List UInt8 :=
  UInt8.ofNat commands.length :: commands.flatMap DrawCommand.bytes

open DrawOp (Reads ReadsAll ReadsList)

variable {r : Revision} {data : Bytes} {offset : Nat}

theorem Polygon.read_of_holds {pairs : List (UInt8 × UInt8)}
    (hlength : pairs.length ≤ Polygon.maxRecorded)
    (h : data.Holds offset (UInt8.ofNat pairs.length :: pairs.flatMap fun (y, x) => [y, x])) :
    Polygon.read data offset =
      .ok (⟨pairs.map Vertex.ofBytes⟩, offset + 1 + 2 * pairs.length) := by
  have hcount : (UInt8.ofNat pairs.length).toNat = pairs.length := by
    rw [UInt8.toNat_ofNat']
    exact Nat.mod_eq_of_lt (Nat.lt_succ_of_le hlength)
  have hslice := h.tail.slice?
  rw [length_flatMap_pairs, ← hcount] at hslice
  refine Polygon.read_eq_ok_iff.mpr ⟨_, _, h.head, hslice, ?_, by rw [hcount]⟩
  rw [List.toList_toArray, bytePairs_flatMap]

theorem TweenRef.ofPayload_six (base : Nat) (a b c d t tMax : UInt8) :
    TweenRef.ofPayload base #[a, b, c, d, t, tMax] =
      if wordOf a b ≤ base then .ok ⟨base - wordOf a b, base + wordOf c d, t, tMax⟩
      else .error (.beforeStart base (wordOf a b)) :=
  rfl

theorem TweenRef.ofPayload_bytes {base : Nat} {back forward : UInt16} (t tMax : UInt8)
    (h : back.toNat ≤ base) :
    TweenRef.ofPayload base
        (wordBytes back.toNat ++ wordBytes forward.toNat ++ [t, tMax]).toArray =
      .ok ⟨base - back.toNat, base + forward.toNat, t, tMax⟩ := by
  simp only [wordBytes, List.cons_append, List.nil_append]
  rw [TweenRef.ofPayload_six, wordOf_wordBytes back.toNat_lt, wordOf_wordBytes forward.toNat_lt,
    if_pos h]

namespace DrawCommand

theorem Means.reads {c : DrawCommand} {op : DrawOp} (hr : r.Consistent) (h : Means r offset c op)
    (hbytes : data.Holds offset c.bytes) : Reads r data offset op (offset + c.bytes.length) := by
  cases h with
  | @polygon i command plane pairs hplane hcommand hlength =>
    have hread := Polygon.read_of_holds hlength hbytes.tail
    have hstop : offset + (DrawCommand.polygon command pairs).bytes.length =
        offset + 1 + 1 + 2 * pairs.length := by
      rw [bytes, polygonCommand, List.length_cons, List.length_cons, length_flatMap_pairs]
      omega
    rw [hstop]
    exact .polygon hbytes.head (hr.classify_polygon hplane hcommand) hread
  | @tween entry back forward t tMax hentry hback =>
    exact .tween hbytes.head (hr.classify_tween hentry) hbytes.tail.slice?
      (TweenRef.ofPayload_bytes t tMax hback)
  | @ignored entry payload hentry hlength =>
    have hslice := Bytes.slice?_eq_some_iff.mp hbytes.tail.slice?
    have hstop : offset + (DrawCommand.ignored entry.command payload).bytes.length =
        offset + 1 + entry.payload := by
      rw [bytes, List.length_cons, hlength]
      omega
    rw [hstop]
    exact .ignored hbytes.head (hr.classify_ignored hentry) (hlength ▸ hslice.1)

theorem MeansAll.readsAll {commands : List DrawCommand} {ops : List DrawOp} (hr : r.Consistent)
    (h : MeansAll r offset commands ops) (hbytes : data.Holds offset (commands.flatMap bytes)) :
    ∃ items, items.map Prod.fst = ops ∧
      ReadsAll r data commands.length offset items
        (.ok (offset + (commands.flatMap bytes).length)) := by
  induction h with
  | nil => exact ⟨[], rfl, .done⟩
  | @cons offset c op commands ops hmeans _ ih =>
    rw [List.flatMap_cons] at hbytes ⊢
    obtain ⟨items, rfl, hrest⟩ := ih hbytes.right
    refine ⟨(op, offset + c.bytes.length) :: items, rfl, ?_⟩
    rw [List.length_append, ← Nat.add_assoc]
    exact .next (hmeans.reads hr hbytes.left) hrest

theorem MeansAll.append {commands more : List DrawCommand} {ops moreOps : List DrawOp}
    (h : MeansAll r offset commands ops)
    (hmore : MeansAll r (offset + (commands.flatMap bytes).length) more moreOps) :
    MeansAll r offset (commands ++ more) (ops ++ moreOps) := by
  induction h with
  | nil => exact hmore
  | cons hmeans _ ih =>
    rw [List.flatMap_cons, List.length_append, ← Nat.add_assoc] at hmore
    exact .cons hmeans (ih hmore)

/-- A written draw list that stands in the stream is read as what its commands stand for, if the
revision takes any number of them. -/
theorem MeansAll.readsList {commands : List DrawCommand} {ops : List DrawOp} (hr : r.Consistent)
    (hmost : r.maxDraws = none) (h : MeansAll r (offset + 1) commands ops)
    (hlength : commands.length ≤ 255) (hbytes : data.Holds offset (drawListBytes commands)) :
    ∃ count items, items.map Prod.fst = ops ∧
      ReadsList r data offset count items
        (.ok (offset + (drawListBytes commands).length)) := by
  have hcount : (UInt8.ofNat commands.length).toNat = commands.length :=
    UInt8.toNat_ofNat_of_lt' (Nat.lt_succ_of_le hlength)
  have hheader : readDrawCount r data offset = .ok (UInt8.ofNat commands.length) := by
    refine readDrawCount_eq_ok_iff.mpr ⟨hbytes.head, fun most hsome => ?_⟩
    rw [hmost] at hsome
    cases hsome
  obtain ⟨items, hops, hall⟩ := h.readsAll hr hbytes.tail
  rw [← hcount, Nat.add_assoc, Nat.add_comm 1] at hall
  exact ⟨_, items, hops, .opened hheader hall⟩

end DrawCommand

/-- A decoder at a written draw list gives what its commands stand for, in order, and
finishes at the bytes behind, whatever stands around the list. -/
theorem decoder_reads_written_list (hr : r.validate = .ok ()) (before after : List UInt8)
    {commands : List DrawCommand} {ops : List DrawOp}
    (hmeans : DrawCommand.MeansAll r (before.length + 1) commands ops)
    (hlength : commands.length ≤ 255)
    (hmost : ∀ most, r.maxDraws = some most → commands ≠ [] ∧ commands.length ≤ most.toNat) :
    let d := Decoder.ofStart r (before ++ drawListBytes commands ++ after).toArray before.length
    d.outcomes = ops.map .ok ∧
      d.exhausted.endOffset? = some (before ++ drawListBytes commands).length := by
  intro d
  have hconsistent := Revision.validate_eq_ok_iff.mp hr
  have hbytes := Bytes.holds_append before (drawListBytes commands) after
  have hcount : (UInt8.ofNat commands.length).toNat = commands.length := by
    rw [UInt8.toNat_ofNat']
    exact Nat.mod_eq_of_lt (Nat.lt_succ_of_le hlength)
  obtain ⟨items, rfl, hall⟩ := hmeans.readsAll hconsistent hbytes.tail
  have hheader : readDrawCount r (before ++ drawListBytes commands ++ after).toArray
      before.length = .ok (UInt8.ofNat commands.length) := by
    refine readDrawCount_eq_ok_iff.mpr ⟨hbytes.head, fun most hsome => ?_⟩
    obtain ⟨hne, hle⟩ := hmost most hsome
    constructor
    · intro hzero
      rw [hzero] at hcount
      exact hne (List.eq_nil_of_length_eq_zero hcount.symm)
    · rw [UInt8.le_iff_toNat_le, hcount]
      exact hle
  rw [← hcount] at hall
  have hgives := Decoder.gives_of_readsList (.opened hheader hall)
  refine ⟨?_, ?_⟩
  · rw [hgives.outcomes, List.map_map]
    exact List.append_nil _
  · rw [hgives.endOffset?, drawListBytes, List.length_append, List.length_cons]
    exact congrArg some (by omega)

/-- A polygon, a tween and a command passed over, as many as the revision allows, behind one
byte and in front of two. -/
theorem decoder_reads_written_three :
    let r := { Revision.fourPlane with maxDraws := some 3 }
    let commands : List DrawCommand := [.polygon 0xD3 [(0, 0), (10, 20)],
      .tween 0xE8 8 9 1 4, .ignored 0xF2 [1, 2, 3, 4, 5, 6]]
    let d := Decoder.ofStart r ([7] ++ drawListBytes commands ++ [8, 9]).toArray 1
    r.validate = .ok () ∧
      d.outcomes = [.ok (.polygon 2 0xD3 1 ⟨[⟨0, 0⟩, ⟨10, 20⟩]⟩),
        .ok (.tween 8 0xE8 2 ⟨1, 18, 1, 4⟩), .ok (.skip 15 0xF2 6)] ∧
      d.exhausted.endOffset? = some 22 := by
  intro r commands d
  have hr : r.validate = .ok () := by cbv
  have hmeans : DrawCommand.MeansAll r 2 commands [.polygon 2 0xD3 1 ⟨[⟨0, 0⟩, ⟨10, 20⟩]⟩,
      .tween 8 0xE8 2 ⟨1, 18, 1, 4⟩, .skip 15 0xF2 6] := by
    have hpolygon : DrawCommand.Means r 2 (.polygon 0xD3 [(0, 0), (10, 20)])
        (.polygon 2 0xD3 1 ⟨[⟨0, 0⟩, ⟨10, 20⟩]⟩) :=
      .polygon (i := 3) (by decide) (by decide) (by decide)
    have htween : (⟨0xE8, 2⟩ : TweenCommand) ∈ r.tweens := by decide
    have hignored : (⟨0xF2, 6⟩ : IgnoredCommand) ∈ r.ignored := by decide
    exact .cons hpolygon (.cons (.tween htween (by decide)) (.cons (.ignored hignored rfl) .nil))
  have hmost : ∀ most, r.maxDraws = some most →
      commands ≠ [] ∧ commands.length ≤ most.toNat := by
    rintro most hsome
    cases hsome
    exact ⟨List.cons_ne_nil _ _, by decide⟩
  exact ⟨hr, decoder_reads_written_list hr [7] [8, 9] hmeans (by decide) hmost⟩

end Bitplane
