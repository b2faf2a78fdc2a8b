import Bitplane.Proofs.DrawList.Calls
import Bitplane.Proofs.Script.Packed
import Bitplane.Proofs.Tween.Record

/-! # Missing bytes

Whatever is read from a byte string, a fault that tells of missing bytes tells the truth: so
many are needed at the place it names, the string ends before the last of them, and the place
is not behind the end unless the reading began there. Every reader derives that from its own
first fault, and a decoder from the position at which it stands.
-/

namespace Bitplane

/-- A reading from `start` on that needs `needed` bytes at `offset`, of which the last is not
there. -/
structure Bytes.Lacks (data : Bytes) (start offset needed : Nat) : Prop where
  needed_pos : 1 ≤ needed
  size_lt : data.size < offset + needed
  start_le : start ≤ offset
  offset_le : start ≤ data.size → offset ≤ data.size

namespace Bytes.Lacks

variable {data : Bytes} {start place offset needed : Nat}

theorem of_none (h : data[offset]? = none) : data.Lacks offset offset 1 :=
  ⟨Nat.le_refl _, Nat.lt_succ_of_le (Array.getElem?_eq_none_iff.mp h), Nat.le_refl _, id⟩

theorem of_slice? {byte : UInt8} (hbyte : data[start]? = some byte)
    (h : data.slice? (start + 1) needed = none) : data.Lacks start (start + 1) needed := by
  have hlt := (Array.getElem?_eq_some_iff.mp hbyte).1
  have hmissing := Bytes.slice?_eq_none_iff.mp h
  exact ⟨by omega, hmissing, Nat.le_succ _, fun _ => hlt⟩

theorem of_le (h : data.Lacks place offset needed) (hle : start ≤ place)
    (hin : start ≤ data.size → place ≤ data.size) : data.Lacks start offset needed :=
  ⟨h.needed_pos, h.size_lt, Nat.le_trans hle h.start_le, h.offset_le ∘ hin⟩

end Bytes.Lacks

variable {revision : Revision} {data : Bytes} {start offset needed stop : Nat}

theorem Polygon.lacks_of_read
    (h : Polygon.read data start = .error (.unexpectedEnd offset needed)) :
    data.Lacks start offset needed := by
  rcases Polygon.read_eq_error_iff.mp h with ⟨hle, hfault⟩ | ⟨count, hcount, hpart, hfault⟩
  · cases hfault
    exact .of_none (Array.getElem?_eq_none_iff.mpr hle)
  · cases hfault
    exact .of_slice? hcount hpart

/-! ## Draw lists -/

namespace DrawOp

variable {command : UInt8}

theorem lacks_of_readSkip {bytes : Nat} (hbyte : data[start]? = some command)
    (h : readSkip data start command bytes = (.error (.unexpectedEnd offset needed), stop)) :
    data.Lacks start offset needed := by
  unfold readSkip at h
  split at h
  case h_1 hslice =>
    cases h
    exact .of_slice? hbyte hslice
  case h_2 => cases h

theorem lacks_of_read
    (h : read revision data start = (.error (.unexpectedEnd offset needed), stop)) :
    data.Lacks start offset needed := by
  unfold read at h
  split at h
  case h_1 hnone =>
    cases h
    exact .of_none hnone
  case h_2 command hbyte =>
    have hlt := (Array.getElem?_eq_some_iff.mp hbyte).1
    split at h
    case h_1 =>
      split at h
      case h_1 hshape =>
        cases h
        exact (Polygon.lacks_of_read hshape).of_le (Nat.le_succ _) fun _ => hlt
      case h_2 => cases h
    case h_2 =>
      split at h
      case h_1 hslice =>
        cases h
        exact .of_slice? hbyte hslice
      case h_2 => split at h <;> cases h
    case h_3 => exact lacks_of_readSkip hbyte h
    case h_4 =>
      split at h
      case h_1 => exact lacks_of_readSkip hbyte h
      case h_2 => cases h

end DrawOp

theorem lacks_of_readDrawCount
    (h : readDrawCount revision data start = .error (.unexpectedEnd offset needed)) :
    data.Lacks start offset needed := by
  unfold readDrawCount at h
  split at h
  case h_1 hnone =>
    cases h
    exact .of_none hnone
  case h_2 =>
    split at h
    case h_1 => cases h
    case h_2 => split at h <;> cases h

namespace Decoder

/-- The step: a call finds bytes missing from where the decoder stands. -/
theorem lacks_of_next {d : Decoder}
    (h : d.next.1 = some (.error (.unexpectedEnd offset needed))) :
    d.data.Lacks d.position offset needed := by
  have hturn := d.turn
  generalize d.next.2 = after at hturn
  rw [h] at hturn
  cases hturn with
  | refused _ _ hcount => exact lacks_of_readDrawCount hcount
  | failed _ hheaded _ hread =>
    have hlacks := DrawOp.lacks_of_read hread
    rw [hheaded.source_eq.2] at hlacks
    exact hlacks.of_le hheaded.position_le.1 hheaded.position_le.2

theorem position_le_afterCalls (d : Decoder) (n : Nat) :
    d.position ≤ (d.afterCalls n).position := by
  induction n with
  | zero => exact Nat.le_refl _
  | succ n ih => exact Nat.le_trans ih (d.afterCalls n).position_next.1

/-- The run: so does a call behind any number of others, seen from the start. -/
theorem lacks_of_afterCalls {n : Nat}
    (h : ((ofStart revision data start).afterCalls n).next.1 =
      some (.error (.unexpectedEnd offset needed))) : data.Lacks start offset needed := by
  have hlacks := lacks_of_next h
  obtain ⟨-, hdata, -⟩ := (ofStart revision data start).source_afterCalls n
  rw [hdata] at hlacks
  exact hlacks.of_le ((ofStart revision data start).position_le_afterCalls n)
    fun hle => position_afterCalls_le (d := ofStart revision data start) hle n

end Decoder

/-! ## Scripts and tweens -/

theorem Script.lacks_of_ofPacked
    (h : Script.ofPacked data = .error (.frame (.unexpectedEnd offset needed))) :
    data.Lacks 0 offset needed := by
  unfold ofPacked at h
  split at h
  case h_1 hcount =>
    cases h
    exact ⟨by decide, Bytes.slice?_eq_none_iff.mp hcount, Nat.le_refl _, id⟩
  case h_2 count hcount =>
    have hle := (Bytes.slice?_eq_some_iff.mp hcount).1
    dsimp only at h
    split at h
    case h_1 htable =>
      cases h
      have hmissing := Bytes.slice?_eq_none_iff.mp htable
      exact ⟨by omega, hmissing, Nat.zero_le _, fun _ => hle⟩
    case h_2 =>
      generalize ofParts _ _ = parts at h
      cases parts <;> cases h

namespace Tween

variable {ref : TweenRef} {fault : TweenFault} {target : Nat}

theorem polygon_eq_error_cases (h : polygon revision data ref = .error fault) :
    fault = .zeroDuration ∨ (∃ target, fault = .emptyShape target) ∨
      ∃ target, (target = ref.fromOffset ∨ target = ref.toOffset) ∧
        resolve revision data target = .error fault := by
  unfold polygon at h
  split at h
  case isTrue =>
    cases h
    exact .inl rfl
  case isFalse =>
    cases hsource : resolve revision data ref.fromOffset with
    | error found =>
      rw [hsource] at h
      cases h
      exact .inr (.inr ⟨_, .inl rfl, hsource⟩)
    | ok a =>
      cases htarget : resolve revision data ref.toOffset with
      | error found =>
        rw [hsource, htarget] at h
        cases h
        exact .inr (.inr ⟨_, .inr rfl, htarget⟩)
      | ok b =>
        rw [hsource, htarget] at h
        simp only [Bind.bind, Except.bind] at h
        refine .inr (.inl ?_)
        split at h
        case isTrue =>
          cases h
          exact ⟨_, rfl⟩
        case isFalse =>
          split at h
          case isTrue =>
            cases h
            exact ⟨_, rfl⟩
          case isFalse => cases h

theorem cut_of_resolve {place : Nat}
    (h : resolve revision data place = .error (.truncated target needed)) :
    place = target ∧ target < data.size ∧ data.size < target + needed := by
  obtain _ | _ | ⟨htag, -, hread, hneeded⟩ := resolve_eq_iff.mp h
  have hlt := (Array.getElem?_eq_some_iff.mp htag).1
  have hmissing := (Polygon.lacks_of_read hread).size_lt
  exact ⟨rfl, hlt, hneeded ▸ hmissing⟩

theorem outside_of_resolve {place : Nat}
    (h : resolve revision data place = .error (.outOfBounds target)) :
    place = target ∧ data.size ≤ target := by
  obtain ⟨hle⟩ := resolve_eq_iff.mp h
  exact ⟨rfl, hle⟩

theorem cut_of_polygon (h : polygon revision data ref = .error (.truncated target needed)) :
    (target = ref.fromOffset ∨ target = ref.toOffset) ∧
      target < data.size ∧ data.size < target + needed := by
  rcases polygon_eq_error_cases h with hfault | ⟨_, hfault⟩ | ⟨place, hplace, hresolve⟩
  · cases hfault
  · cases hfault
  · obtain ⟨rfl, hcut⟩ := cut_of_resolve hresolve
    exact ⟨hplace, hcut⟩

theorem outside_of_polygon (h : polygon revision data ref = .error (.outOfBounds target)) :
    (target = ref.fromOffset ∨ target = ref.toOffset) ∧ data.size ≤ target := by
  rcases polygon_eq_error_cases h with hfault | ⟨_, hfault⟩ | ⟨place, hplace, hresolve⟩
  · cases hfault
  · cases hfault
  · obtain ⟨rfl, hle⟩ := outside_of_resolve hresolve
    exact ⟨hplace, hle⟩

end Tween

/-- Faults of missing bytes tell the truth, in whatever call of a decoder, reading of a polygon
or unpacking of a script they come up: at least one byte is needed, the string ends before the
last of them, and they are needed not behind its end, unless the reading began there. A record
that a tween finds cut off begins inside the data and ends outside, and one that it finds
outside the data is there; both are records that the tween points to. -/
theorem missing_bytes_are_not_there (revision : Revision) (data : Bytes) (start : Nat) :
    (∀ n offset needed,
      ((Decoder.ofStart revision data start).afterCalls n).next.1 =
        some (.error (.unexpectedEnd offset needed)) → data.Lacks start offset needed) ∧
    (∀ offset needed, Polygon.read data start = .error (.unexpectedEnd offset needed) →
      data.Lacks start offset needed) ∧
    (∀ offset needed, Script.ofPacked data = .error (.frame (.unexpectedEnd offset needed)) →
      data.Lacks 0 offset needed) ∧
    ∀ ref : TweenRef,
      (∀ target needed,
        Tween.polygon revision data ref = .error (.truncated target needed) →
          (target = ref.fromOffset ∨ target = ref.toOffset) ∧
            target < data.size ∧ data.size < target + needed) ∧
      ∀ target, Tween.polygon revision data ref = .error (.outOfBounds target) →
        (target = ref.fromOffset ∨ target = ref.toOffset) ∧ data.size ≤ target := by
  refine ⟨?decoder, ?polygon, ?script, fun ref => ⟨?cut, ?outside⟩⟩
  case decoder =>
    intro n offset needed h
    exact Decoder.lacks_of_afterCalls h
  case polygon =>
    intro offset needed h
    exact Polygon.lacks_of_read h
  case script =>
    intro offset needed h
    exact Script.lacks_of_ofPacked h
  case cut =>
    intro target needed h
    exact Tween.cut_of_polygon h
  case outside =>
    intro target h
    exact Tween.outside_of_polygon h

/-- A shape that counts four vertices and has none. Its decoder, its reader and a tween from it
miss the same bytes; read as a packed script, the string lacks half of its table. -/
theorem missing_bytes_of_cut_shape :
    let data : Bytes := #[0, 2, 0xD2, 4]
    let ref : TweenRef := ⟨2, 2, 0, 1⟩
    let out : TweenRef := ⟨4, 2, 0, 1⟩
    ((Decoder.ofStart .fourPlane data 1).afterCalls 0).next.1 =
        some (.error (.unexpectedEnd 4 8)) ∧ data.Lacks 1 4 8 ∧
      Polygon.read data 3 = .error (.unexpectedEnd 4 8) ∧ data.Lacks 3 4 8 ∧
      Script.ofPacked data = .error (.frame (.unexpectedEnd 2 4)) ∧ data.Lacks 0 2 4 ∧
      Tween.polygon .fourPlane data ref = .error (.truncated 2 10) ∧
      2 < data.size ∧ data.size < 2 + 10 ∧
      Tween.polygon .fourPlane data out = .error (.outOfBounds 4) ∧ data.size ≤ 4 := by
  intro data ref out
  obtain ⟨hdecoder, -, hpacked, htween⟩ := missing_bytes_are_not_there .fourPlane data 1
  obtain ⟨-, hread, -⟩ := missing_bytes_are_not_there .fourPlane data 3
  have hcall : ((Decoder.ofStart .fourPlane data 1).afterCalls 0).next.1 =
      some (.error (.unexpectedEnd 4 8)) := by rfl
  have hshape : Polygon.read data 3 = .error (.unexpectedEnd 4 8) := by rfl
  have hscript : Script.ofPacked data = .error (.frame (.unexpectedEnd 2 4)) := by cbv
  have hcut : Tween.polygon .fourPlane data ref = .error (.truncated 2 10) := by rfl
  have hout : Tween.polygon .fourPlane data out = .error (.outOfBounds 4) := by rfl
  obtain ⟨-, hinside, hbehind⟩ := (htween ref).1 2 10 hcut
  obtain ⟨-, houtside⟩ := (htween out).2 4 hout
  exact ⟨hcall, hdecoder 0 4 8 hcall, hshape, hread 4 8 hshape, hscript, hpacked 2 4 hscript, hcut,
    hinside, hbehind, hout, houtside⟩

end Bitplane
