import Bitplane.CommandLine.Run
import Bitplane.Proofs.CommandLine.Convert
import Bitplane.Proofs.Playback.Polling
import Bitplane.Proofs.Renderer.Refusal

/-! # What playing comes to

Playing a script against a clock that the command moves itself comes to an end, and what is
told then follows from the number of frames and from the two paces.
-/

namespace Bitplane.CommandLine

open Playback (Polled)
open SessionM

variable {s s' : Session} {choice : ScriptChoice} {script : Script} {revision : Revision}
  {view : View} {renderer : Renderer} {ticks : List Tick} {interval poll : Nat}

theorem of_ofScript_eq_ok {width height : Nat}
    (h : Renderer.ofScript script revision width height = .ok renderer) :
    renderer.script = script ∧ renderer.revision = revision ∧ revision.validate = .ok () := by
  unfold Renderer.ofScript at h
  cases hvalid : revision.validate with
  | ok =>
    rw [hvalid] at h
    cases h
    exact ⟨rfl, rfl, rfl⟩
  | error =>
    rw [hvalid] at h
    cases h

theorem of_gives_openRenderer (h : Gives (openRenderer script revision view) s renderer s') :
    renderer.script = script ∧ renderer.revision = revision ∧ revision.validate = .ok () := by
  simp only [openRenderer] at h
  split at h
  case isTrue =>
    obtain ⟨_, _, hthrow, -⟩ := gives_bind_iff.mp h
    exact absurd hthrow not_gives_throw
  case isFalse =>
    simp only [gives_bind_iff, gives_orFail_iff, mapError_eq_ok_iff] at h
    obtain ⟨opened, _, ⟨hopened, rfl⟩, _, _, -, palette, _, -, hview⟩ := h
    have hsource := of_ofScript_eq_ok hopened
    split at hview
    case isTrue =>
      obtain ⟨_, _, -, hpure⟩ := gives_bind_iff.mp hview
      obtain ⟨rfl, -⟩ := gives_pure_iff.mp hpure
      exact hsource
    case isFalse =>
      obtain ⟨rfl, -⟩ := gives_pure_iff.mp hview
      exact hsource

theorem exists_gives_sayDrawn {drawn : Renderer.Drawn} {report : Report}
    (h : drawn.result = .ok report) (s : Session) : ∃ s', Gives (sayDrawn drawn) s report s' := by
  have hclean (t : Session) : ∃ s', Gives (do
      unless report.isClean do say [⟨.warn, .commandLine, report.text⟩]
      return report) t report s' := by
    cases report.isClean with
    | true => exact ⟨_, gives_pure_iff.mpr ⟨rfl, rfl⟩⟩
    | false =>
      exact ⟨_, gives_bind_iff.mpr ⟨(), _, gives_say_iff.mpr rfl, gives_pure_iff.mpr ⟨rfl, rfl⟩⟩⟩
  obtain ⟨s', hs'⟩ := hclean { s with said := drawn.notices :: s.said }
  exact ⟨s', gives_bind_iff.mpr ⟨(), _, gives_say_iff.mpr rfl,
    gives_bind_iff.mpr ⟨report, _, gives_orFail_iff.mpr ⟨h, rfl⟩, hs'⟩⟩⟩

/-- The frames that ticks hand out are all rendered, and the other ticks are counted. -/
theorem exists_gives_playTicks (hr : renderer.revision.Consistent)
    (hframes : ∀ frame ∈ ticks.filterMap Tick.handedOut?, frame < renderer.frameCount)
    (tally : Tally) (s : Session) :
    ∃ faulty s', Gives (playTicks ticks tally renderer) s
      ⟨tally.rendered + (ticks.filterMap Tick.handedOut?).length,
        tally.unchanged + ticks.countP (·.handedOut?.isNone), faulty⟩ s' := by
  induction ticks generalizing tally renderer s with
  | nil => exact ⟨tally.faulty, s, gives_pure_iff.mpr ⟨rfl, rfl⟩⟩
  | cons tick rest ih =>
    -- the ticks of the three kinds without a frame are alike
    have hother (hnone : tick.handedOut? = none)
        (hplay : playTicks (tick :: rest) tally renderer =
          playTicks rest { tally with unchanged := tally.unchanged + 1 } renderer) :
        ∃ faulty s', Gives (playTicks (tick :: rest) tally renderer) s
          ⟨tally.rendered + ((tick :: rest).filterMap Tick.handedOut?).length,
            tally.unchanged + (tick :: rest).countP (·.handedOut?.isNone), faulty⟩ s' := by
      rw [List.filterMap_cons_none hnone] at hframes ⊢
      rw [List.countP_cons_of_pos (by rw [hnone]; rfl), hplay,
        Nat.add_comm (rest.countP _) 1, ← Nat.add_assoc tally.unchanged 1]
      exact ih hr hframes { tally with unchanged := tally.unchanged + 1 } s
    cases tick with
    | render frame =>
      have hframe : (Tick.render frame).handedOut? = some frame := rfl
      rw [List.filterMap_cons_some hframe] at hframes ⊢
      have hanswers := Renderer.answers_render hr frame
      obtain ⟨hscript, hrevision⟩ := hanswers.source_kept
      obtain ⟨report, hreport, -⟩ := hanswers.reported (hframes frame List.mem_cons_self)
      obtain ⟨s₁, hsaid⟩ := exists_gives_sayDrawn hreport s
      have hkept : (renderer.render frame).renderer.revision.Consistent := hrevision ▸ hr
      obtain ⟨faulty, s', hrest⟩ := ih hkept
        (fun later hlater => by
          rw [Renderer.frameCount, hscript]
          exact hframes later (List.mem_cons_of_mem _ hlater))
        { tally with
          rendered := tally.rendered + 1
          faulty := if report.isClean then tally.faulty else tally.faulty + 1 } s₁
      refine ⟨faulty, s', ?_⟩
      rw [playTicks, gives_bind_iff]
      refine ⟨report, s₁, hsaid, ?_⟩
      rw [List.countP_cons_of_neg (by simp [hframe]), List.length_cons,
        Nat.add_comm (List.length _) 1, ← Nat.add_assoc tally.rendered 1]
      exact hrest
    | unchanged => exact hother rfl rfl
    | finished => exact hother rfl rfl
    | idle => exact hother rfl rfl

theorem length_eq_handedOut_add (ticks : List Tick) : ticks.length =
    (ticks.filterMap Tick.handedOut?).length + ticks.countP (·.handedOut?.isNone) := by
  rw [List.length_eq_countP_add_countP (·.handedOut?.isSome), List.length_filterMap_eq_countP]
  congr 2
  funext tick
  cases tick.handedOut? <;> rfl

/-! ## The two paces -/

theorem mul_ceilDiv_mul (a : Nat) {b c : Nat} (hb : 0 < b) (hc : 0 < c) :
    a * c ⌈/⌉ (b * c) = a ⌈/⌉ b := by
  refine eq_of_forall_ge_iff fun k => ?_
  rw [ceilDiv_le_iff_le_mul (Nat.mul_pos hb hc), ceilDiv_le_iff_le_mul hb, Nat.mul_right_comm,
    Nat.mul_le_mul_right_iff hc]

/-- The animation of a command that plays, from time zero on. -/
def played (count interval : Nat) : Playback :=
  ((Playback.ofFrames count).withInterval (.ofMillis interval)).animate ⟨0⟩

theorem frameCount_played (count interval : Nat) : (played count interval).frameCount = count :=
  rfl

theorem interval_played (count interval : Nat) :
    (played count interval).interval.nanos = max interval 1 * 1000000 :=
  Nat.mul_max_mul_right interval 1 1000000

theorem millisecond_le_played (count interval : Nat) :
    (Duration.ofMillis 1).nanos ≤ (played count interval).interval.nanos :=
  Nat.le_max_right _ _

theorem nanos_pace_pos (poll : Nat) : 0 < (Duration.ofMillis (max poll 1)).nanos :=
  Nat.mul_pos (Nat.lt_of_lt_of_le Nat.one_pos (Nat.le_max_right _ _)) (by decide)

/-- The number of polls at which an animation of a command is still running. -/
def pollCount (count interval poll : Nat) : Nat := count * max interval 1 ⌈/⌉ max poll 1

theorem pollCount_eq (count interval poll : Nat) : count * (played count interval).interval.nanos
    ⌈/⌉ (Duration.ofMillis (max poll 1)).nanos = pollCount count interval poll := by
  rw [interval_played, ← Nat.mul_assoc]
  exact mul_ceilDiv_mul _ (Nat.lt_of_lt_of_le Nat.one_pos (Nat.le_max_right _ _)) (by decide)

theorem mul_nanos_ofMillis (polls poll : Nat) :
    (⟨polls * (Duration.ofMillis poll).nanos⟩ : Duration) = .ofMillis (polls * poll) :=
  congrArg Duration.mk (Nat.mul_assoc _ _ _).symm

variable {count : Nat}

theorem lastsFor_played (hcount : count < 2 ^ 63) (hpoll : poll < 2 ^ 64) :
    (played count interval).LastsFor (.ofMillis (max poll 1)) (pollCount count interval poll) := by
  have hinterval := millisecond_le_played count interval
  have hfits : (Duration.ofMillis (max poll 1)).nanos < (Duration.ofMillis (2 ^ 64)).nanos :=
    Nat.mul_lt_mul_of_pos_right (by omega) (by decide)
  rw [← pollCount_eq]
  exact Playback.lastsFor_ceilDiv (Nat.lt_of_lt_of_le (by decide) hinterval) (nanos_pace_pos poll)
    rfl rfl (show count ≤ 2 ^ 64 - 1 by omega)
    (Playback.duePolled_ceilDiv_lt hinterval (nanos_pace_pos poll) hcount hfits)

/-! ## The whole command -/

def playedText (count : Nat) (elapsed : Duration) (tally : Tally) : String :=
  s!"Played {count} frames in {elapsed.text}: {tally.rendered} rendered, " ++
    s!"{count - tally.rendered} dropped, {tally.unchanged} redundant ticks, " ++
    s!"{tally.faulty} faulty"

theorem gives_runPlay {s₀ s₁ s₂ s₃ s₄ : Session} {elapsed : Duration} {tally : Tally}
    (hscript : Gives (loadScript choice) s₀ script s₁)
    (hrevision : Gives (loadRevision choice) s₁ revision s₂)
    (hrenderer : Gives (openRenderer script revision view) s₂ renderer s₃)
    (hticks : ((Playback.ofFrames script.frameCount).withInterval (.ofMillis interval)).ticks
      (.ofMillis (max poll 1)) = (ticks, elapsed))
    (htally : Gives (playTicks ticks ⟨0, 0, 0⟩ renderer) s₃ tally s₄) :
    Gives (runPlay choice view interval poll) s₀ ()
      { s₄ with said := [⟨.info, .commandLine, playedText script.frameCount elapsed tally⟩] ::
          s₄.said } := by
  unfold runPlay
  refine gives_bind_iff.mpr ⟨script, s₁, hscript, ?_⟩
  refine gives_bind_iff.mpr ⟨revision, s₂, hrevision, ?_⟩
  refine gives_bind_iff.mpr ⟨renderer, s₃, hrenderer, ?_⟩
  -- the match is left alone, or the ticks would be evaluated
  dsimp -iota only
  rw [hticks]
  exact gives_bind_iff.mpr ⟨tally, s₄, htally, gives_tell_iff.mpr rfl⟩

/-- Five frames with a triangle each, and the file that holds them. -/
def fiveFrames : Script where
  offsets := #[0, 9, 18, 27, 36]
  data := #[1, 0xD2, 3, 0, 0, 0, 1, 1, 0, 1, 0xD2, 3, 0, 0, 0, 2, 2, 0,
    1, 0xD2, 3, 0, 0, 0, 3, 3, 0, 1, 0xD2, 3, 0, 0, 0, 4, 4, 0, 1, 0xD2, 3, 0, 0, 0, 5, 5, 0]
  offset_lt := by decide

def fiveFile : Session :=
  .start ⟨[("in.bin", .bytes (#[0, 5, 0, 0, 0, 9, 0, 18, 0, 27, 0, 36] ++ fiveFrames.data))], []⟩
    "" []

theorem openFile_fiveFile : Script.openFile fiveFile.bytes? "in.bin" = .ok fiveFrames := by
  have hread : fiveFile.bytes? "in.bin" =
      some (#[0, 5, 0, 0, 0, 9, 0, 18, 0, 27, 0, 36] ++ fiveFrames.data) := by cbv
  have hpath : Script.Container.ofPath "in.bin" = .packed := by decide
  rw [Script.openFile_eq_ok_iff, hpath]
  exact ⟨_, hread, Script.ofPacked_of_packed rfl⟩

theorem exists_gives_load_fiveFile : ∃ s₁ s₂ s₃ renderer,
    Gives (loadScript ⟨"in.bin", .fourPlane, none⟩) fiveFile fiveFrames s₁ ∧
    Gives (loadRevision ⟨"in.bin", .fourPlane, none⟩) s₁ .fourPlane s₂ ∧
    Gives (openRenderer fiveFrames .fourPlane ⟨6, 6, false, .layered, []⟩) s₂ renderer s₃ :=
  ⟨_, _, _, _, gives_bind_iff.mpr ⟨_, _, gives_openScript_iff.mpr ⟨openFile_fiveFile, rfl⟩,
    gives_bind_iff.mpr ⟨(), _, gives_tell_iff.mpr rfl, gives_pure_iff.mpr ⟨rfl, rfl⟩⟩⟩, rfl, rfl⟩

end Bitplane.CommandLine
