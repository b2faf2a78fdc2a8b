import Bitplane.Proofs.DrawList.Outcomes

/-! # Whole draw lists

A decoder reads a header and then commands, one right behind the other. What all its
steps give follows from what the bytes can be read as: the operations, each with the
offset behind it, and then the end of the list or the fault in front of the rest.
-/

namespace Bitplane

variable {revision : Revision} {data : Bytes} {offset stop : Nat}

theorem Polygon.read_eq_ok_iff {shape : Polygon} :
    Polygon.read data offset = .ok (shape, stop) ↔
      ∃ count part, data[offset]? = some count ∧
        data.slice? (offset + 1) (2 * count.toNat) = some part ∧
        shape = ⟨(bytePairs part.toList).map Vertex.ofBytes⟩ ∧
        stop = offset + 1 + 2 * count.toNat := by
  constructor
  · intro h
    unfold Polygon.read at h
    split at h
    · cases h
    case h_2 count hcount =>
      dsimp only at h
      split at h
      · cases h
      case h_2 part hpart =>
        cases h
        exact ⟨count, part, hcount, hpart, rfl, rfl⟩
  · rintro ⟨count, part, hcount, hpart, rfl, rfl⟩
    simp only [Polygon.read, hcount, hpart]

theorem Polygon.read_eq_error_iff {fault : FrameFault} :
    Polygon.read data offset = .error fault ↔
      data.size ≤ offset ∧ fault = .unexpectedEnd offset 1 ∨
      ∃ count, data[offset]? = some count ∧
        data.slice? (offset + 1) (2 * count.toNat) = none ∧
        fault = .unexpectedEnd (offset + 1) (2 * count.toNat) := by
  constructor
  · intro h
    unfold Polygon.read at h
    split at h
    case h_1 hnone =>
      cases h
      exact .inl ⟨Array.getElem?_eq_none_iff.mp hnone, rfl⟩
    case h_2 count hcount =>
      dsimp only at h
      split at h
      case h_1 hpart =>
        cases h
        exact .inr ⟨count, hcount, hpart, rfl⟩
      case h_2 => cases h
  · rintro (⟨hle, rfl⟩ | ⟨count, hcount, hpart, rfl⟩)
    · rw [Polygon.read, Array.getElem?_eq_none hle]
    · simp only [Polygon.read, hcount, hpart]

theorem Polygon.size_of_slice? {part : Bytes} {count : Nat}
    (h : data.slice? offset (2 * count) = some part) :
    Polygon.size ⟨(bytePairs part.toList).map Vertex.ofBytes⟩ = count := by
  rw [Polygon.size, List.length_map, length_bytePairs, Array.length_toList, Bytes.size_of_slice? h]
  omega

namespace DrawOp

variable {op : DrawOp}

def payloadSize : DrawOp → Nat
  | .polygon _ _ _ shape => 1 + 2 * shape.size
  | .tween .. => tweenPayload
  | .skip _ _ bytes => bytes

theorem read_eq_ok_iff : read revision data offset = (.ok op, stop) ↔
    Reads revision data offset op stop := by
  refine ⟨reads_of_read, fun h => ?_⟩
  cases h with
  | polygon hbyte hclass hshape => simp only [read, hbyte, hclass, hshape]
  | tween hbyte hclass hslice href => simp only [read, hbyte, hclass, hslice, href]
  | ignored hbyte hclass hle =>
    simp only [read, hbyte, hclass, readSkip, Bytes.slice?_eq_some_iff.mpr ⟨hle, rfl⟩]
  | unknown hbyte hclass hunknown hle =>
    simp only [read, hbyte, hclass, hunknown, readSkip, Bytes.slice?_eq_some_iff.mpr ⟨hle, rfl⟩]

theorem Reads.extent (h : Reads revision data offset op stop) :
    op.offset = offset ∧ data[offset]? = some op.command ∧
      stop = offset + 1 + op.payloadSize ∧ stop ≤ data.size := by
  cases h with
  | polygon hbyte _ hshape =>
    obtain ⟨count, part, -, hpart, rfl, rfl⟩ := Polygon.read_eq_ok_iff.mp hshape
    refine ⟨rfl, hbyte, ?_, (Bytes.slice?_eq_some_iff.mp hpart).1⟩
    rw [payloadSize, Polygon.size_of_slice? hpart]
    omega
  | tween hbyte _ hslice _ => exact ⟨rfl, hbyte, rfl, (Bytes.slice?_eq_some_iff.mp hslice).1⟩
  | ignored hbyte _ hle => exact ⟨rfl, hbyte, rfl, hle⟩
  | unknown hbyte _ _ hle => exact ⟨rfl, hbyte, rfl, hle⟩

theorem Reads.lt (h : Reads revision data offset op stop) : offset < stop := by
  obtain ⟨-, -, rfl, -⟩ := h.extent
  omega

/-! ## Readings -/

/-- What this many commands can be read as from an offset on: operations, each with the
offset behind it, up to the end of the last one or the fault of the next. -/
inductive ReadsAll (revision : Revision) (data : Bytes) :
    Nat → Nat → List (DrawOp × Nat) → Except FrameFault Nat → Prop
  | done {offset : Nat} : ReadsAll revision data 0 offset [] (.ok offset)
  | stopped {count offset stop : Nat} {fault : FrameFault} :
      read revision data offset = (.error fault, stop) →
      ReadsAll revision data (count + 1) offset [] (.error fault)
  | next {count offset stop : Nat} {op : DrawOp} {rest : List (DrawOp × Nat)}
      {result : Except FrameFault Nat} :
      Reads revision data offset op stop → ReadsAll revision data count stop rest result →
      ReadsAll revision data (count + 1) offset ((op, stop) :: rest) result

theorem exists_readsAll (revision : Revision) (data : Bytes) (count offset : Nat) :
    ∃ items result, ReadsAll revision data count offset items result := by
  induction count generalizing offset with
  | zero => exact ⟨[], _, .done⟩
  | succ count ih =>
    rcases hread : read revision data offset with ⟨fault | op, stop⟩
    · exact ⟨[], _, .stopped hread⟩
    · obtain ⟨rest, result, hrest⟩ := ih stop
      exact ⟨(op, stop) :: rest, result, .next (reads_of_read hread) hrest⟩

/-- Induction on commands that are all read, up to the end of the last. -/
@[elab_as_elim]
theorem ReadsAll.induction_complete {stop : Nat}
    {motive : (count offset : Nat) → (items : List (DrawOp × Nat)) →
      ReadsAll revision data count offset items (.ok stop) → Prop}
    (done : motive 0 stop [] .done)
    (next : ∀ {count offset mid : Nat} {op : DrawOp} {rest : List (DrawOp × Nat)}
      (hread : Reads revision data offset op mid)
      (hrest : ReadsAll revision data count mid rest (.ok stop)),
      motive count mid rest hrest →
        motive (count + 1) offset ((op, mid) :: rest) (.next hread hrest))
    {count offset : Nat} {items : List (DrawOp × Nat)}
    (h : ReadsAll revision data count offset items (.ok stop)) : motive count offset items h := by
  induction items generalizing count offset with
  | nil =>
    cases h
    exact done
  | cons item rest ih =>
    cases h with
    | next hread hrest => exact next hread hrest (ih hrest)

theorem ReadsAll.le {count : Nat} {items : List (DrawOp × Nat)}
    (h : ReadsAll revision data count offset items (.ok stop)) : offset ≤ stop := by
  induction h using ReadsAll.induction_complete with
  | done => exact Nat.le_refl _
  | next hread _ ih => exact Nat.le_trans (Nat.le_of_lt hread.lt) ih

/-- What the draw list at an offset can be read as, once the count in its header is accepted. -/
inductive ReadsList (revision : Revision) (data : Bytes) (start : Nat) :
    Option UInt8 → List (DrawOp × Nat) → Except FrameFault Nat → Prop
  | refused {fault : FrameFault} : readDrawCount revision data start = .error fault →
      ReadsList revision data start none [] (.error fault)
  | opened {count : UInt8} {items : List (DrawOp × Nat)} {result : Except FrameFault Nat} :
      readDrawCount revision data start = .ok count →
      ReadsAll revision data count.toNat (start + 1) items result →
      ReadsList revision data start (some count) items result

theorem exists_readsList (revision : Revision) (data : Bytes) (start : Nat) :
    ∃ count items result, ReadsList revision data start count items result := by
  cases hcount : readDrawCount revision data start with
  | error fault => exact ⟨none, [], _, .refused hcount⟩
  | ok count =>
    obtain ⟨items, result, hall⟩ := exists_readsAll revision data count.toNat (start + 1)
    exact ⟨some count, items, result, .opened hcount hall⟩

end DrawOp

theorem readDrawCount_eq_ok_iff {start : Nat} {count : UInt8} :
    readDrawCount revision data start = .ok count ↔
      data[start]? = some count ∧
        ∀ most, revision.maxDraws = some most → count ≠ 0 ∧ count ≤ most := by
  unfold readDrawCount
  cases data[start]? with
  | none => simp
  | some byte =>
    cases revision.maxDraws with
    | none => simp
    | some most =>
      dsimp only
      split
      case isTrue hbad =>
        constructor
        · intro h
          cases h
        · rintro ⟨hbyte, hmost⟩
          cases hbyte
          obtain ⟨hne, hle⟩ := hmost most rfl
          exact absurd hbad (not_or.mpr ⟨hne, UInt8.not_lt.mpr hle⟩)
      case isFalse hgood =>
        obtain ⟨hne, hlt⟩ := not_or.mp hgood
        constructor
        · intro h
          cases h
          refine ⟨rfl, fun _ hmost => ?_⟩
          cases hmost
          exact ⟨hne, UInt8.not_lt.mp hlt⟩
        · rintro ⟨hbyte, -⟩
          cases hbyte
          rfl

/-! ## Steps -/

namespace Decoder

open DrawOp (ReadsAll ReadsList)

variable {d h : Decoder} {count : Option UInt8} {steps : List Step} {items : List (DrawOp × Nat)}
  {result : Except FrameFault Nat}

/-- Steps that give these operations, each with the position behind it, and then nothing:
at the end of the list or behind the fault. -/
inductive Trace (count : Option UInt8) :
    List Step → List (DrawOp × Nat) → Except FrameFault Nat → Prop
  | finished {s : Step} : s.outcome = none → s.after.phase = .finished →
      s.after.drawCount = count → Trace count [s] [] (.ok s.after.position)
  | failed {s last : Step} {fault : FrameFault} : s.outcome = some (.error fault) →
      last.outcome = none → last.after.phase = .failed → last.after.drawCount = count →
      Trace count [s, last] [] (.error fault)
  | read {s : Step} {rest : List Step} {op : DrawOp} {items : List (DrawOp × Nat)}
      {result : Except FrameFault Nat} : s.outcome = some (.ok op) →
      Trace count rest items result →
        Trace count (s :: rest) ((op, s.after.position) :: items) result

theorem Headed.next_eq (hd : Headed d h) (hphase : d.phase = .running) :
    d.next = h.nextCommand := by
  cases hd with
  | before hcount => simp only [next, header, hphase, hcount]
  | now hnone hcount => simp only [next, header, hphase, hnone, hcount]

theorem Headed.phase_eq (hd : Headed d h) : h.phase = d.phase := by
  cases hd <;> rfl

theorem Headed.drawCount_eq (hd : Headed d h) : ∃ count, h.drawCount = some count := by
  cases hd with
  | before hcount => exact ⟨_, hcount⟩
  | now => exact ⟨_, rfl⟩

theorem stepsUpTo_of_none (limit : Nat) (hnone : d.next.1 = none) :
    stepsUpTo (limit + 1) d = [d.step] := by
  simp only [stepsUpTo, step, hnone]

theorem stepsUpTo_of_some (limit : Nat) {outcome : Except FrameFault DrawOp}
    (hsome : d.next.1 = some outcome) :
    stepsUpTo (limit + 1) d = d.step :: stepsUpTo limit d.next.2 := by
  simp only [stepsUpTo, step, hsome]

theorem trace_of_fault (limit : Nat) {fault : FrameFault} {after : Decoder}
    (hnext : d.next = (some (.error fault), after)) (hphase : after.phase = .failed) :
    Trace after.drawCount (stepsUpTo (limit + 2) d) [] (.error fault) := by
  have hstopped : after.next = (none, after) := by
    refine next_of_not_running ?_
    rw [hphase]
    decide
  have houtcome : d.next.1 = some (.error fault) := by rw [hnext]
  rw [stepsUpTo_of_some _ houtcome, hnext, stepsUpTo_of_none limit (by rw [hstopped])]
  have hafter : after.step.after = after := congrArg Prod.snd hstopped
  exact .failed houtcome (congrArg Prod.fst hstopped) (hafter.symm ▸ hphase) (by rw [hafter])

theorem Headed.trace {limit : Nat} (hd : Headed d h) (hphase : d.phase = .running)
    (hrevision : h.revision = revision) (hdata : h.data = data)
    (hall : ReadsAll revision data h.remaining h.position items result)
    (hlimit : h.remaining < limit) : Trace h.drawCount (stepsUpTo limit d) items result := by
  generalize hremaining : h.remaining = remaining, hposition : h.position = position at hall hlimit
  -- on the commands read; between two of them the header is behind the decoder
  induction hall generalizing d h limit with
  | done =>
    obtain ⟨limit, rfl⟩ := Nat.exists_eq_add_one_of_ne_zero (Nat.ne_of_gt hlimit)
    have hnext : d.next = (none, { h with phase := .finished }) := by
      rw [hd.next_eq hphase, nextCommand, hremaining]
    have hafter : d.step.after = { h with phase := .finished } := congrArg Prod.snd hnext
    have hstop : d.step.after.position = h.position := by rw [hafter]
    rw [stepsUpTo_of_none limit (congrArg Prod.fst hnext), ← hposition, ← hstop]
    exact .finished (congrArg Prod.fst hnext) (by rw [hafter]) (by rw [hafter])
  | @stopped remaining _ stop fault hread =>
    obtain ⟨limit, rfl⟩ : ∃ k, limit = k + 2 := ⟨limit - 2, by omega⟩
    have hnext : d.next = (some (.error fault),
        { h with position := stop, remaining := remaining, phase := .failed }) := by
      rw [hd.next_eq hphase, nextCommand, hremaining, hrevision, hdata, hposition, hread]
    have htrace := trace_of_fault limit hnext rfl
    exact htrace
  | @next remaining _ stop op _ _ hreads _ ih =>
    obtain ⟨limit, rfl⟩ : ∃ k, limit = k + 1 := ⟨limit - 1, by omega⟩
    have hnext : d.next =
        (some (.ok op), { h with position := stop, remaining := remaining }) := by
      rw [hd.next_eq hphase, nextCommand, hremaining, hrevision, hdata, hposition,
        DrawOp.read_eq_ok_iff.mpr hreads]
    have houtcome : d.next.1 = some (.ok op) := congrArg Prod.fst hnext
    have hstop : d.step.after.position = stop := by rw [step, hnext]
    obtain ⟨_, hcount⟩ := hd.drawCount_eq
    rw [stepsUpTo_of_some limit houtcome, ← hstop]
    refine .read houtcome ?_
    rw [hnext]
    have hbehind : Headed { h with position := stop, remaining := remaining }
        { h with position := stop, remaining := remaining } := .before hcount
    have hlt : remaining < limit := Nat.lt_of_succ_lt_succ hlimit
    have hrest := ih hbehind (hd.phase_eq.trans hphase) hrevision hdata rfl rfl hlt
    exact hrest

/-- The steps of a decoder follow the reading of its draw list. -/
theorem trace_of_readsList {start : Nat}
    (hlist : ReadsList revision data start count items result) :
    Trace count (ofStart revision data start).steps items result := by
  cases hlist with
  | @refused fault hcount =>
    have hnext : (ofStart revision data start).next = (some (.error fault),
        { ofStart revision data start with
          position := if start < data.size then start + 1 else start
          phase := .failed }) := by
      simp only [next, header, ofStart, hcount]
      rfl
    have htrace := trace_of_fault 254 hnext rfl
    exact htrace
  | @opened count items result hcount hall =>
    have hheaded : Headed (ofStart revision data start)
        { ofStart revision data start with
          position := start + 1, drawCount := some count, remaining := count.toNat } :=
      .now rfl hcount
    have hbudget : count.toNat < 256 := count.toNat_lt
    exact hheaded.trace rfl rfl rfl hall hbudget

/-! ## What a decoder gives -/

/-- The operations that a decoder still gives, each with the position behind it. -/
def placedOps (d : Decoder) : List (DrawOp × Nat) :=
  d.steps.filterMap fun s => match s.outcome with
    | some (.ok op) => some (op, s.after.position)
    | _ => none

def exhausted (d : Decoder) : Decoder := (d.steps.getLast?.map Step.after).getD d

def faultOf? : Except FrameFault Nat → Option FrameFault
  | .ok _ => none
  | .error fault => some fault

/-- Everything that a decoder gives, and how it stands then. -/
structure Gives (d : Decoder) (count : Option UInt8) (items : List (DrawOp × Nat))
    (result : Except FrameFault Nat) : Prop where
  placedOps : d.placedOps = items
  outcomes : d.outcomes = items.map (.ok ·.1) ++ (faultOf? result).toList.map .error
  endOffset? : d.exhausted.endOffset? = result.toOption
  drawCount : d.exhausted.drawCount = count
  next : d.exhausted.next = (none, d.exhausted)

theorem Trace.getLast? (h : Trace count steps items result) :
    ∃ s, steps.getLast? = some s ∧ s.after.phase ≠ .running ∧ s.after.drawCount = count ∧
      s.after.endOffset? = result.toOption := by
  induction h with
  | @finished s _ hphase hcount =>
    refine ⟨s, rfl, ?_, hcount, if_pos hphase⟩
    rw [hphase]
    decide
  | @failed s last fault _ _ hphase hcount =>
    refine ⟨last, rfl, ?_, hcount, if_neg ?_⟩ <;>
    · rw [hphase]
      decide
  | read _ _ ih =>
    obtain ⟨last, hlast, hrest⟩ := ih
    refine ⟨last, ?_, hrest⟩
    rw [List.getLast?_cons, hlast, Option.getD_some]

theorem Trace.outcomes (h : Trace count steps items result) :
    steps.filterMap Step.outcome =
      items.map (.ok ·.1) ++ (faultOf? result).toList.map .error := by
  induction h with
  | finished hnone => simp [hnone, faultOf?]
  | failed hfault hnone => simp [hfault, hnone, faultOf?]
  | read hop _ ih =>
    rw [List.filterMap_cons, hop, ih]
    rfl

theorem Trace.placedOps (h : Trace count steps items result) :
    (steps.filterMap fun s => match s.outcome with
      | some (.ok op) => some (op, s.after.position)
      | _ => none) = items := by
  induction h with
  | finished hnone => simp [hnone]
  | failed hfault hnone => simp [hfault, hnone]
  | read hop _ ih => rw [List.filterMap_cons, hop, ih]

theorem Trace.gives (h : Trace count d.steps items result) : Gives d count items result := by
  obtain ⟨s, hlast, hphase, hcount, hend⟩ := h.getLast?
  have hexhausted : d.exhausted = s.after := by
    rw [exhausted, hlast, Option.map_some, Option.getD_some]
  refine ⟨h.placedOps, h.outcomes, ?_, ?_, ?_⟩
  · rw [hexhausted, hend]
  · rw [hexhausted, hcount]
  · rw [hexhausted, next_of_not_running hphase]

theorem gives_of_readsList {start : Nat}
    (hlist : ReadsList revision data start count items result) :
    Gives (ofStart revision data start) count items result :=
  (trace_of_readsList hlist).gives

theorem Gives.ops (h : Gives d count items result) : d.ops = items.map Prod.fst := by
  calc d.ops
      = items.filterMap (some ∘ Prod.fst) ++ (faultOf? result).toList.filterMap fun _ => none := by
        rw [Decoder.ops, h.outcomes, List.filterMap_append, List.filterMap_map, List.filterMap_map]
        rfl
    _ = items.map Prod.fst := by simp

theorem Gives.fault? (h : Gives d count items result) : d.fault? = faultOf? result := by
  have hops : items.findSome? (fun _ => (none : Option FrameFault)) = none :=
    List.findSome?_eq_none_iff.mpr fun _ _ => rfl
  rw [Decoder.fault?, h.outcomes, List.findSome?_append, List.findSome?_map]
  cases result <;> simp [faultOf?, Function.comp_def, hops]

theorem readsAll_of_endOffset? {start : Nat}
    (hend : (ofStart revision data start).exhausted.endOffset? = some stop) :
    ∃ count items, readDrawCount revision data start = .ok count ∧
      ReadsAll revision data count.toNat (start + 1) items (.ok stop) := by
  obtain ⟨_, items, result, hlist⟩ := DrawOp.exists_readsList revision data start
  rw [(gives_of_readsList hlist).endOffset?] at hend
  cases hlist with
  | refused => cases hend
  | @opened count _ _ hcount hall =>
    cases result with
    | error => cases hend
    | ok =>
      cases hend
      exact ⟨count, items, hcount, hall⟩

end Decoder

end Bitplane
