import Bitplane.Proofs.DrawList.Runs

/-! # Calls of a decoder

However often a decoder is called, it gives operations, then a fault unless the draw list is at
its end, and from then on nothing; its position never goes back. The draw count is there from
the first call on, if the header is accepted, and the decoder has an end exactly if it has given
that many operations and then nothing.
-/

namespace Bitplane

namespace DrawOp

variable {revision : Revision} {data : Bytes} {offset stop : Nat} {fault : FrameFault}

theorem stop_of_readSkip_eq_error {command : UInt8} {bytes : Nat}
    (h : readSkip data offset command bytes = (.error fault, stop)) : stop = offset + 1 := by
  unfold readSkip at h
  split at h <;> cases h
  rfl

theorem stop_of_read_eq_error (h : read revision data offset = (.error fault, stop)) :
    offset ≤ stop ∧ (offset ≤ data.size → stop ≤ data.size) := by
  unfold read at h
  split at h
  case h_1 =>
    cases h
    exact ⟨Nat.le_refl _, id⟩
  case h_2 command hbyte =>
    have hlt := (Array.getElem?_eq_some_iff.mp hbyte).1
    have hpassed : stop = offset + 1 ∨ stop ≤ data.size ∧ offset ≤ stop := by
      split at h
      case h_1 =>
        split at h <;> cases h
        exact .inl rfl
      case h_2 =>
        split at h
        case h_1 =>
          cases h
          exact .inl rfl
        case h_2 hslice =>
          have hle := (Bytes.slice?_eq_some_iff.mp hslice).1
          split at h <;> cases h
          exact .inr ⟨hle, by omega⟩
      case h_3 => exact .inl (stop_of_readSkip_eq_error h)
      case h_4 =>
        split at h
        case h_1 => exact .inl (stop_of_readSkip_eq_error h)
        case h_2 =>
          cases h
          exact .inl rfl
    omega

theorem stop_of_read {result : Except FrameFault DrawOp}
    (h : read revision data offset = (result, stop)) :
    offset ≤ stop ∧ (offset ≤ data.size → stop ≤ data.size) := by
  cases result with
  | error => exact stop_of_read_eq_error h
  | ok =>
    obtain ⟨-, -, -, hle⟩ := (reads_of_read h).extent
    exact ⟨Nat.le_of_lt (reads_of_read h).lt, fun _ => hle⟩

end DrawOp

namespace Decoder

abbrev Answer : Type := Option (Except FrameFault DrawOp)

def afterCalls (d : Decoder) : Nat → Decoder
  | 0 => d
  | n + 1 => (d.afterCalls n).next.2

def answers (d : Decoder) : Nat → List Answer
  | 0 => []
  | n + 1 => d.answers n ++ [(d.afterCalls n).next.1]

variable {revision : Revision} {data : Bytes} {start n : Nat} {d h : Decoder} {count : UInt8}
  {ops : List DrawOp} {fault? : Option FrameFault} {quiet : Nat}

/-! ## Behind the last answer -/

theorem phase_ne_running_of_next
    (hanswer : d.next.1 = none ∨ ∃ fault, d.next.1 = some (.error fault)) :
    d.next.2.phase ≠ .running := by
  have hturn := d.turn
  generalize d.next.1 = answer, d.next.2 = after at hturn hanswer
  cases hturn with
  | stopped hphase => exact hphase
  | refused => exact nofun
  | finished => exact nofun
  | read => simp at hanswer
  | failed => exact nofun

theorem afterCalls_of_not_running (hphase : (d.afterCalls n).phase ≠ .running) (m : Nat) :
    d.afterCalls (n + m) = d.afterCalls n := by
  induction m with
  | zero => rfl
  | succ m ih => rw [← Nat.add_assoc, afterCalls, ih, next_of_not_running hphase]

theorem next_of_lt
    (hanswer : (d.afterCalls n).next.1 = none ∨
      ∃ fault, (d.afterCalls n).next.1 = some (.error fault))
    {m : Nat} (hm : n < m) : (d.afterCalls m).next = (none, d.afterCalls m) := by
  have hphase : (d.afterCalls (n + 1)).phase ≠ .running := phase_ne_running_of_next hanswer
  obtain ⟨more, rfl⟩ := Nat.exists_eq_add_of_le hm
  rw [Nat.succ_eq_add_one, afterCalls_of_not_running hphase]
  exact next_of_not_running hphase

/-! ## Sources and positions -/

theorem start_next (d : Decoder) : d.next.2.start = d.start := by
  have hturn := d.turn
  generalize d.next.1 = answer, d.next.2 = after at hturn
  cases hturn with
  | stopped => rfl
  | refused => rfl
  | finished _ hheaded => cases hheaded <;> rfl
  | read _ hheaded => cases hheaded <;> rfl
  | failed _ hheaded => cases hheaded <;> rfl

theorem source_afterCalls (d : Decoder) (n : Nat) :
    (d.afterCalls n).revision = d.revision ∧ (d.afterCalls n).data = d.data ∧
      (d.afterCalls n).start = d.start := by
  induction n with
  | zero => exact ⟨rfl, rfl, rfl⟩
  | succ n ih =>
    obtain ⟨hrevision, hdata, hstart⟩ := ih
    obtain ⟨hrevision', hdata'⟩ := (d.afterCalls n).source_next
    exact ⟨hrevision'.trans hrevision, hdata'.trans hdata, (start_next _).trans hstart⟩

theorem Headed.position_le (hd : Headed d h) :
    d.position ≤ h.position ∧ (d.position ≤ d.data.size → h.position ≤ d.data.size) := by
  cases hd with
  | before => exact ⟨Nat.le_refl _, id⟩
  | now _ hread =>
    have hlt := (Array.getElem?_eq_some_iff.mp (readDrawCount_eq_ok_iff.mp hread).1).1
    exact ⟨Nat.le_succ _, fun _ => hlt⟩

theorem Headed.stop_le (hd : Headed d h) {stop : Nat} {result : Except FrameFault DrawOp}
    (hread : DrawOp.read h.revision h.data h.position = (result, stop)) :
    d.position ≤ stop ∧ (d.position ≤ d.data.size → stop ≤ d.data.size) := by
  obtain ⟨hle, hin⟩ := hd.position_le
  obtain ⟨hle', hin'⟩ := DrawOp.stop_of_read hread
  rw [hd.source_eq.2] at hin'
  exact ⟨Nat.le_trans hle hle', hin' ∘ hin⟩

theorem position_next (d : Decoder) :
    d.position ≤ d.next.2.position ∧
      (d.position ≤ d.data.size → d.next.2.position ≤ d.data.size) := by
  have hturn := d.turn
  generalize d.next.1 = answer, d.next.2 = after at hturn
  cases hturn with
  | stopped => exact ⟨Nat.le_refl _, id⟩
  | refused =>
    dsimp only
    split <;> omega
  | finished _ hheaded => exact hheaded.position_le
  | read _ hheaded _ hread => exact hheaded.stop_le hread
  | failed _ hheaded _ hread => exact hheaded.stop_le hread

theorem position_afterCalls_le (hle : d.position ≤ d.data.size) (n : Nat) :
    (d.afterCalls n).position ≤ d.data.size := by
  induction n with
  | zero => exact hle
  | succ n ih =>
    obtain ⟨-, hdata, -⟩ := d.source_afterCalls n
    exact hdata ▸ (d.afterCalls n).position_next.2 (hdata ▸ ih)

/-! ## What has been given -/

/-- Operations, then perhaps a fault, and then nothing for this many calls. -/
def spelled (ops : List DrawOp) (fault? : Option FrameFault) (quiet : Nat) : List Answer :=
  ops.map (some <| .ok ·) ++ fault?.toList.map (some <| .error ·) ++ List.replicate quiet none

theorem spelled_op (ops : List DrawOp) (op : DrawOp) :
    spelled (ops ++ [op]) none 0 = spelled ops none 0 ++ [some (.ok op)] := by
  simp [spelled]

theorem spelled_fault (ops : List DrawOp) (fault : FrameFault) :
    spelled ops (some fault) 0 = spelled ops none 0 ++ [some (.error fault)] := by
  simp [spelled]

theorem spelled_quiet (ops : List DrawOp) (fault? : Option FrameFault) (quiet : Nat) :
    spelled ops fault? (quiet + 1) = spelled ops fault? quiet ++ [none] := by
  rw [spelled, List.replicate_succ', ← List.append_assoc]
  rfl

/-- How a decoder over the draw list at `start` stands when it has given these operations,
perhaps a fault, and then nothing for so many calls. -/
inductive Stands (revision : Revision) (data : Bytes) (start : Nat) (d : Decoder) :
    List DrawOp → Option FrameFault → Nat → Prop
  | fresh : d = ofStart revision data start → Stands revision data start d [] none 0
  | refused {fault : FrameFault} {quiet : Nat} :
      readDrawCount revision data start = .error fault → d.drawCount = none →
      d.phase = .failed → Stands revision data start d [] (some fault) quiet
  | reading {count : UInt8} {ops : List DrawOp} :
      readDrawCount revision data start = .ok count → d.drawCount = some count →
      d.phase = .running → ops.length + d.remaining = count.toNat →
      Stands revision data start d ops none 0
  | finished {count : UInt8} {ops : List DrawOp} {quiet : Nat} :
      readDrawCount revision data start = .ok count → d.drawCount = some count →
      d.phase = .finished → ops.length = count.toNat →
      Stands revision data start d ops none (quiet + 1)
  | failed {count : UInt8} {ops : List DrawOp} {fault : FrameFault} {quiet : Nat} :
      readDrawCount revision data start = .ok count → d.drawCount = some count →
      d.phase = .failed → ops.length < count.toNat →
      Stands revision data start d ops (some fault) quiet

/-- What the next call adds to what has been given. -/
def Goes (revision : Revision) (data : Bytes) (start : Nat) (d : Decoder)
    (before : List Answer) : Prop :=
  ∃ ops fault? quiet, before ++ [d.next.1] = spelled ops fault? quiet ∧
    Stands revision data start d.next.2 ops fault? quiet

theorem Headed.goes (hd : Headed d h) (hphase : d.phase = .running)
    (hread : readDrawCount revision data start = .ok count) (hcount : h.drawCount = some count)
    (hremaining : ops.length + h.remaining = count.toNat) :
    Goes revision data start d (spelled ops none 0) := by
  rw [Goes, hd.next_eq hphase, nextCommand]
  split
  case h_1 hzero =>
    exact ⟨ops, none, 1, (spelled_quiet ops none 0).symm,
      .finished hread hcount rfl (by omega)⟩
  case h_2 remaining hsucc =>
    split
    case h_1 op _ _ =>
      refine ⟨ops ++ [op], none, 0, (spelled_op ops op).symm,
        .reading hread hcount (hd.phase_eq.trans hphase) ?_⟩
      rw [List.length_append, List.length_singleton]
      dsimp only
      omega
    case h_2 fault _ _ =>
      exact ⟨ops, some fault, 0, (spelled_fault ops fault).symm,
        .failed hread hcount rfl (by omega)⟩

theorem goes_of_not_running (hphase : d.phase ≠ .running)
    (hstands : Stands revision data start d ops fault? (quiet + 1)) :
    Goes revision data start d (spelled ops fault? quiet) := by
  refine ⟨ops, fault?, quiet + 1, ?_, ?_⟩
  · rw [next_of_not_running hphase, spelled_quiet]
  · rwa [next_of_not_running hphase]

/-- The step: whatever has been given, the next call adds to it as the protocol says. -/
theorem Stands.goes (hstands : Stands revision data start d ops fault? quiet) :
    Goes revision data start d (spelled ops fault? quiet) := by
  cases hstands with
  | fresh hfresh =>
    subst hfresh
    cases hread : readDrawCount revision data start with
    | error fault =>
      have hnext : (ofStart revision data start).next = (some (.error fault),
          { ofStart revision data start with
            position := if start < data.size then start + 1 else start
            phase := .failed }) := by
        simp only [next, header, ofStart, hread]
        rfl
      rw [Goes, hnext]
      exact ⟨[], some fault, 0, rfl, .refused hread rfl rfl⟩
    | ok count =>
      exact (Headed.now rfl hread).goes rfl hread rfl (Nat.zero_add _)
  | reading hread hcount hphase hremaining =>
    exact (Headed.before hcount).goes hphase hread hcount hremaining
  | refused hread hcount hphase =>
    exact goes_of_not_running (by simp [hphase]) (.refused hread hcount hphase)
  | finished hread hcount hphase hlength =>
    exact goes_of_not_running (by simp [hphase]) (.finished hread hcount hphase hlength)
  | failed hread hcount hphase hlength =>
    exact goes_of_not_running (by simp [hphase]) (.failed hread hcount hphase hlength)

/-- The run: what any number of calls gives, and how the decoder stands then. -/
theorem exists_stands (revision : Revision) (data : Bytes) (start n : Nat) :
    ∃ ops fault? quiet, (ofStart revision data start).answers n = spelled ops fault? quiet ∧
      Stands revision data start ((ofStart revision data start).afterCalls n) ops fault? quiet := by
  induction n with
  | zero => exact ⟨[], none, 0, rfl, .fresh rfl⟩
  | succ n ih =>
    obtain ⟨ops, fault?, quiet, hanswers, hstands⟩ := ih
    obtain ⟨ops', fault?', quiet', hspelled, hafter⟩ := hstands.goes
    exact ⟨ops', fault?', quiet', by rw [answers, hanswers, hspelled], hafter⟩

/-! ## What the standing tells -/

namespace Stands

theorem length_le (hstands : Stands revision data start d ops fault? quiet) :
    ops.length ≤ ((data[start]?).map UInt8.toNat).getD 0 := by
  have hle : ∀ {count : UInt8}, readDrawCount revision data start = .ok count →
      ops.length ≤ count.toNat → ops.length ≤ ((data[start]?).map UInt8.toNat).getD 0 := by
    intro count hread hlength
    rw [(readDrawCount_eq_ok_iff.mp hread).1]
    exact hlength
  cases hstands with
  | fresh => exact Nat.zero_le _
  | refused => exact Nat.zero_le _
  | reading hread _ _ hremaining => exact hle hread (by omega)
  | finished hread _ _ hlength => exact hle hread (Nat.le_of_eq hlength)
  | failed hread _ _ hlength => exact hle hread (Nat.le_of_lt hlength)

theorem isSome_endOffset?_iff (hstands : Stands revision data start d ops fault? quiet) :
    d.endOffset?.isSome ↔ 0 < quiet ∧ fault? = none := by
  cases hstands with
  | fresh hfresh => simp [hfresh, endOffset?, ofStart]
  | refused _ _ hphase => simp [endOffset?, hphase]
  | reading _ _ hphase => simp [endOffset?, hphase]
  | finished _ _ hphase => simp [endOffset?, hphase]
  | failed _ _ hphase => simp [endOffset?, hphase]

theorem count_of_quiet (hstands : Stands revision data start d ops none quiet)
    (hquiet : 0 < quiet) : ∃ count : UInt8, readDrawCount revision data start = .ok count ∧
      d.drawCount = some count ∧ ops.length = count.toNat := by
  cases hstands with
  | fresh => cases hquiet
  | reading => cases hquiet
  | finished hread hcount _ hlength => exact ⟨_, hread, hcount, hlength⟩

theorem drawCount_cases (hstands : Stands revision data start d ops fault? quiet) :
    (∃ count, d.drawCount = some count ∧ readDrawCount revision data start = .ok count) ∨
      d.drawCount = none ∧ (spelled ops fault? quiet = [] ∨
        ∃ fault, readDrawCount revision data start = .error fault) := by
  cases hstands with
  | fresh hfresh =>
    subst hfresh
    exact .inr ⟨rfl, .inl rfl⟩
  | refused herror hnone => exact .inr ⟨hnone, .inr ⟨_, herror⟩⟩
  | reading hread hcount => exact .inl ⟨_, hcount, hread⟩
  | finished hread hcount => exact .inl ⟨_, hcount, hread⟩
  | failed hread hcount => exact .inl ⟨_, hcount, hread⟩

end Stands

theorem length_answers (d : Decoder) (n : Nat) : (d.answers n).length = n := by
  induction n with
  | zero => rfl
  | succ n ih => rw [answers, List.length_append, ih, List.length_singleton]

theorem drawCount_afterCalls_iff {revision : Revision} {data : Bytes} {start n : Nat}
    {count : UInt8} : ((ofStart revision data start).afterCalls n).drawCount = some count ↔
      0 < n ∧ readDrawCount revision data start = .ok count := by
  obtain ⟨ops, fault?, quiet, hanswers, hstands⟩ := exists_stands revision data start n
  rcases hstands.drawCount_cases with ⟨found, hfound, hread⟩ | ⟨hnone, hreason⟩
  · have hpos : 0 < n := by
      refine Nat.pos_of_ne_zero ?_
      rintro rfl
      cases hfound
    rw [hfound, hread, Option.some.injEq, Except.ok.injEq]
    exact (and_iff_right hpos).symm
  · rw [hnone]
    refine iff_of_false nofun ?_
    rintro ⟨hpos, hread⟩
    rcases hreason with hnil | ⟨fault, herror⟩
    · have hlength := length_answers (ofStart revision data start) n
      rw [hanswers, hnil, List.length_nil] at hlength
      omega
    · cases herror.symm.trans hread

/-- Any number of calls gives operations, at most as many as the header says, then at most one
fault, and then nothing; after a call that gives no operation nothing changes any more. There
is an end exactly if the decoder has given nothing without a fault before, and then it has given
as many operations as the draw count says, and as many as the revision allows. The draw count is
the header, from the first call on, and never there if the header is missing or refused. -/
theorem calls_keep_protocol (revision : Revision) (data : Bytes) (start : Nat) :
    let d := ofStart revision data start
    (∀ n, ∃ (ops : List DrawOp) (fault? : Option FrameFault) (quiet : Nat),
      d.answers n = spelled ops fault? quiet ∧
      ops.length ≤ ((data[start]?).map UInt8.toNat).getD 0 ∧
      ((d.afterCalls n).endOffset?.isSome ↔ 0 < quiet ∧ fault? = none) ∧
      (0 < quiet → fault? = none →
        (d.afterCalls n).drawCount.map UInt8.toNat = some ops.length ∧
        ∀ most, revision.maxDraws = some most → 1 ≤ ops.length ∧ ops.length ≤ most.toNat)) ∧
    (∀ n, (d.afterCalls n).next.1 = none ∨
        (∃ fault, (d.afterCalls n).next.1 = some (.error fault)) →
      ∀ m, n < m → (d.afterCalls m).next = (none, d.afterCalls m)) ∧
    ∀ n count, (d.afterCalls n).drawCount = some count ↔
      0 < n ∧ data[start]? = some count ∧
        ∀ most, revision.maxDraws = some most → count ≠ 0 ∧ count ≤ most := by
  intro d
  refine ⟨fun n => ?_, fun n hanswer m hm => next_of_lt hanswer hm, fun n count => ?_⟩
  · obtain ⟨ops, fault?, quiet, hanswers, hstands⟩ := exists_stands revision data start n
    refine ⟨ops, fault?, quiet, hanswers, hstands.length_le, hstands.isSome_endOffset?_iff, ?_⟩
    rintro hquiet rfl
    obtain ⟨count, hread, hcount, hlength⟩ := hstands.count_of_quiet hquiet
    refine ⟨by rw [hcount, hlength]; rfl, fun most hmost => ?_⟩
    obtain ⟨hne, hle⟩ := (readDrawCount_eq_ok_iff.mp hread).2 most hmost
    have hpos : count.toNat ≠ 0 := fun hzero => hne (UInt8.toNat_inj.mp hzero)
    rw [UInt8.le_iff_toNat_le] at hle
    omega
  · rw [drawCount_afterCalls_iff, readDrawCount_eq_ok_iff]

/-- One shape under a revision that allows six, and calls beyond the end. -/
theorem calls_keep_protocol_one_shape :
    let d := ofStart .singlePlane #[1, 0xD0, 0] 0
    (∃ (ops : List DrawOp) (fault? : Option FrameFault) (quiet : Nat),
        d.answers 3 = spelled ops fault? quiet ∧ 0 < quiet ∧ fault? = none ∧
          1 ≤ ops.length ∧ ops.length ≤ 6) ∧
      (d.afterCalls 1).next.1 = none ∧ (d.afterCalls 5).next = (none, d.afterCalls 5) ∧
      (d.afterCalls 4).drawCount = some 1 := by
  intro d
  obtain ⟨hanswers, hquiet, hcount⟩ := calls_keep_protocol .singlePlane #[1, 0xD0, 0] 0
  obtain ⟨ops, fault?, quiet, hspelled, -, hend, hclean⟩ := hanswers 3
  have hsome : (d.afterCalls 3).endOffset?.isSome := by decide +kernel
  obtain ⟨hpos, hnone⟩ := hend.mp hsome
  obtain ⟨-, hmost⟩ := hclean hpos hnone
  obtain ⟨hone, hsix⟩ := hmost 6 rfl
  have hlast : (d.afterCalls 1).next.1 = none := by decide +kernel
  have hallowed : ∀ most, Revision.singlePlane.maxDraws = some most →
      (1 : UInt8) ≠ 0 ∧ 1 ≤ most := by
    rintro _ ⟨⟩
    decide
  exact ⟨⟨ops, fault?, quiet, hspelled, hpos, hnone, hone, hsix⟩, hlast,
    hquiet 1 (.inl hlast) 5 (by decide), (hcount 4 1).mpr ⟨by decide, rfl, hallowed⟩⟩

end Decoder

end Bitplane
