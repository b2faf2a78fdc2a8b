import Bitplane.Proofs.Playback.Order

/-! # Ticks of an animation

From any state that a playback can come to, an animation that is told the time again and
again hands out every frame that is due once and in order, and ends once.
-/

namespace Bitplane.Playback

variable {p : Playback} {times : List Duration} {started now : Duration} {first frameCount : Nat}

def ticksAt (times : List Duration) : List Operation := times.map .tick

theorem filterMap_time?_ticksAt (times : List Duration) :
    (ticksAt times).filterMap Operation.time? = times := by
  rw [ticksAt, List.filterMap_map]
  exact List.filterMap_some

theorem step_notMem_ticksAt (times : List Duration) : .step ∉ ticksAt times := by
  simp [ticksAt]

theorem restart_notMem_ticksAt (times : List Duration) : .restart ∉ ticksAt times := by
  simp [ticksAt]

theorem ticksAt_eq_append_cons_iff {before after : List Operation} :
    ticksAt times = before ++ .tick now :: after ↔
      ∃ earlier later, times = earlier ++ now :: later ∧ ticksAt earlier = before ∧
        ticksAt later = after := by
  simp only [ticksAt, List.map_eq_append_iff, List.map_eq_cons_iff, Operation.tick.injEq]
  constructor
  · rintro ⟨earlier, _, rfl, rfl, now, later, rfl, rfl, rfl⟩
    exact ⟨earlier, later, rfl, rfl, rfl⟩
  · rintro ⟨earlier, later, rfl, rfl, rfl⟩
    exact ⟨earlier, _, rfl, rfl, now, later, rfl, rfl, rfl⟩

theorem performAll_ticksAt_cons (p : Playback) (now : Duration) (rest : List Duration) :
    p.performAll (ticksAt (now :: rest)) = (p.tick now).2.performAll (ticksAt rest) := rfl

/-! ## What ticks keep -/

theorem interval_performAll_ticksAt (p : Playback) (times : List Duration) :
    (p.performAll (ticksAt times)).interval = p.interval := by
  induction times generalizing p with
  | nil => rfl
  | cons now rest ih => exact (ih _).trans (p.tick_snd now).2

theorem frameCount_performAll_ticksAt (p : Playback) (times : List Duration) :
    (p.performAll (ticksAt times)).frameCount = p.frameCount := by
  induction times generalizing p with
  | nil => rfl
  | cons now rest ih => exact (ih _).trans (p.tick_snd now).1

theorem performAll_ticksAt_of_stepping (hmode : p.mode = .stepping) (times : List Duration) :
    p.performAll (ticksAt times) = p := by
  induction times with
  | nil => rfl
  | cons now rest ih =>
    rw [performAll_ticksAt_cons, tick_of_stepping hmode]
    exact ih

theorem mode_performAll_ticksAt (hmode : p.mode = .animating started first)
    (hlt : ∀ now ∈ times, p.dueFrame started now first < p.frameCount) :
    (p.performAll (ticksAt times)).mode = .animating started first := by
  induction times generalizing p with
  | nil => exact hmode
  | cons now rest ih =>
    rw [performAll_ticksAt_cons, tick_of_lt hmode (hlt now List.mem_cons_self)]
    exact ih hmode fun later hlater => hlt later (List.mem_cons_of_mem _ hlater)

theorem mode_performAll_ticksAt_of_le (hmode : p.mode = .animating started first)
    (hend : ∃ now ∈ times, p.frameCount ≤ p.dueFrame started now first) :
    (p.performAll (ticksAt times)).mode = .stepping := by
  induction times generalizing p with
  | nil => simp at hend
  | cons now rest ih =>
    rw [performAll_ticksAt_cons]
    rcases Nat.lt_or_ge (p.dueFrame started now first) p.frameCount with hlt | hge
    · rw [tick_of_lt hmode hlt]
      refine ih hmode ?_
      obtain ⟨later, hlater, hle⟩ := hend
      rcases List.mem_cons.mp hlater with rfl | hlater
      · exact absurd hle (Nat.not_le_of_lt hlt)
      · exact ⟨later, hlater, hle⟩
    · rw [tick_of_le hmode hge]
      exact congrArg mode (performAll_ticksAt_of_stepping rfl rest)

theorem framesGone_performAll_ticksAt_le (hmode : p.mode = .animating started first) :
    (p.performAll (ticksAt times)).framesGone now ≤ p.framesGone now := by
  by_cases hend : ∃ now ∈ times, p.frameCount ≤ p.dueFrame started now first
  · rw [framesGone, mode_performAll_ticksAt_of_le hmode hend]
    exact Nat.zero_le _
  · simp only [not_exists, not_and, Nat.not_le] at hend
    rw [framesGone_of_animating (mode_performAll_ticksAt hmode hend), interval_performAll_ticksAt,
      framesGone_of_animating hmode]

theorem dueFrame_performAll_ticksAt (times : List Duration) :
    (p.performAll (ticksAt times)).dueFrame started now first = p.dueFrame started now first := by
  rw [dueFrame, interval_performAll_ticksAt, dueFrame]

/-! ## A tick behind others -/

theorem tick_of_all_lt (p : Playback) (times : List Duration) (now : Duration)
    (hmode : p.mode = .animating started first)
    (hbefore : ∀ earlier ∈ times, p.dueFrame started earlier first < p.frameCount)
    (hlt : p.dueFrame started now first < p.frameCount) :
    (p.performAll (ticksAt times)).tick now =
      (if (p.performAll (ticksAt times)).position = some (p.dueFrame started now first)
        then .unchanged (p.dueFrame started now first)
        else .render (p.dueFrame started now first),
      { p.performAll (ticksAt times) with
        cursor := p.dueFrame started now first + 1
        position := some (p.dueFrame started now first) }) := by
  rw [← dueFrame_performAll_ticksAt times] at hlt ⊢
  rw [← p.frameCount_performAll_ticksAt times] at hlt
  exact tick_of_lt (mode_performAll_ticksAt hmode hbefore) hlt

theorem tick_of_all_lt_of_le (p : Playback) (times : List Duration) (now : Duration)
    (hmode : p.mode = .animating started first)
    (hbefore : ∀ earlier ∈ times, p.dueFrame started earlier first < p.frameCount)
    (hle : p.frameCount ≤ p.dueFrame started now first) :
    (p.performAll (ticksAt times)).tick now =
      (.finished,
        { p.performAll (ticksAt times) with cursor := p.frameCount, mode := .stepping }) := by
  rw [← dueFrame_performAll_ticksAt times] at hle
  rw [← p.frameCount_performAll_ticksAt times] at hle ⊢
  exact tick_of_le (mode_performAll_ticksAt hmode hbefore) hle

theorem tick_of_exists_le (hmode : p.mode = .animating started first)
    (hend : ∃ earlier ∈ times, p.frameCount ≤ p.dueFrame started earlier first) :
    (p.performAll (ticksAt times)).tick now = (.idle, p.performAll (ticksAt times)) :=
  tick_of_stepping (mode_performAll_ticksAt_of_le hmode hend)

/-- However often an animation is told the time, as long as the clock does not go back, its
frames advance. -/
theorem advancesAll_ticksAt (hp : p.Sound frameCount) (hcount : frameCount ≤ maxIndex)
    (htimes : times.Pairwise (·.nanos ≤ ·.nanos))
    (hfit : ∀ now ∈ times, (p.animate started).framesGone now < 2 ^ 64) :
    (p.animate started).AdvancesAll (ticksAt times) := by
  have hcourse := p.onCourse_animate (Nat.le_trans hp.cursor_le hcount) started ⟨0⟩
  refine hcourse.advancesAll (hp.perform (.animate started)) hcount ?_ ?_ ?_ ?_
  · intro op hop
    obtain ⟨now, -, rfl⟩ := List.mem_map.mp hop
    rfl
  · rw [filterMap_time?_ticksAt]
    exact List.pairwise_cons.mpr ⟨fun _ _ => Nat.zero_le _, htimes⟩
  · intro before now after hsplit
    obtain ⟨earlier, later, rfl, rfl, -⟩ := ticksAt_eq_append_cons_iff.mp hsplit
    exact Nat.lt_of_le_of_lt (framesGone_performAll_ticksAt_le rfl) (hfit now (by simp))
  · intro before after hsplit
    exact absurd (hsplit ▸ by simp) (step_notMem_ticksAt times)

/-- An animation from any state that a playback can come to, told the time at times that do
not decrease. As long as the frame due exists, a tick hands it out, unless it is the position
already, and the cursor stands right behind it. The first tick past the last frame ends the
animation with the cursor at the end and the position kept, and every tick after that finds
nothing to do. So the frames handed out increase. The position is the frame handed out last
since there was none, as at the beginning and behind a restart. -/
theorem ticks_hand_out_due_frames (hcount : frameCount ≤ maxIndex) {history : List Operation}
    (hp : p = (ofFrames frameCount).performAll history) (started : Duration)
    (htimes : times.Pairwise (·.nanos ≤ ·.nanos))
    (hfit : ∀ now ∈ times, (now.nanos - started.nanos) / p.interval.nanos < 2 ^ 64) :
    let due (now : Duration) := p.cursor + (now.nanos - started.nanos) / p.interval.nanos
    0 < p.interval.nanos ∧
    (∀ before now after, times = before ++ now :: after →
      let q := (p.animate started).performAll (ticksAt before)
      (due now < frameCount → q.tick now =
        (if q.position = some (due now) then .unchanged (due now) else .render (due now),
          { q with cursor := due now + 1, position := some (due now) })) ∧
      (frameCount ≤ due now → (∀ earlier ∈ before, due earlier < frameCount) →
        q.tick now = (.finished, { q with cursor := frameCount, mode := .stepping })) ∧
      ((∃ earlier ∈ before, frameCount ≤ due earlier) → q.tick now = (.idle, q)) ∧
      (∀ earlier later, history = earlier ++ later → .restart ∉ later →
        ((ofFrames frameCount).performAll earlier).position = none →
        q.position = (((ofFrames frameCount).performAll earlier).handedOut
          (later ++ .animate started :: ticksAt before)).getLast?)) ∧
    ((p.animate started).handedOut (ticksAt times)).Pairwise (· < ·) := by
  intro due
  have hsound : p.Sound frameCount := hp ▸ (sound_ofFrames frameCount).performAll history
  refine ⟨Nat.lt_of_lt_of_le (by decide) hsound.millisecond_le, ?_,
    (advancesAll_ticksAt hsound hcount htimes hfit).handedOut.1⟩
  intro before now after hsplit q
  -- up to the end of the frames the count of those gone by is exact
  have hdue (time : Duration) (htime : time ∈ times) :
      (p.animate started).dueFrame started time p.cursor = min (due time) maxIndex :=
    dueFrame_eq rfl (hfit time htime)
  have hbefore : ∀ earlier ∈ before, earlier ∈ times ∧ due earlier ≤ due now := by
    intro earlier hearlier
    rw [hsplit, List.pairwise_append] at htimes
    have hlater := htimes.2.2 earlier hearlier now List.mem_cons_self
    exact ⟨hsplit ▸ List.mem_append_left _ hearlier, Nat.add_le_add_left
      (Nat.div_le_div_right (Nat.sub_le_sub_right hlater _)) _⟩
  have hnow := hdue now (by simp [hsplit])
  have hframes : (p.animate started).frameCount = frameCount := hsound.frameCount_eq
  refine ⟨fun hlt => ?running, fun hle hall => ?finished, fun hend => ?idle,
    fun earlier later hhistory hrestart hnone => ?position⟩
  case running =>
    have htick := (p.animate started).tick_of_all_lt before now rfl
    rw [hframes, hnow, Nat.min_eq_left (by omega)] at htick
    refine htick (fun earlier hearlier => ?_) hlt
    obtain ⟨hmem, hle⟩ := hbefore earlier hearlier
    rw [hdue earlier hmem]
    omega
  case finished =>
    have htick := (p.animate started).tick_of_all_lt_of_le before now rfl
    rw [hframes, hnow] at htick
    refine htick (fun earlier hearlier => ?_) (Nat.le_min.mpr ⟨hle, hcount⟩)
    rw [hdue earlier (hbefore earlier hearlier).1]
    exact Nat.lt_of_le_of_lt (Nat.min_le_left _ _) (hall earlier hearlier)
  case idle =>
    obtain ⟨earlier, hearlier, hle⟩ := hend
    refine tick_of_exists_le rfl ⟨earlier, hearlier, ?_⟩
    rw [hframes, hdue earlier (hbefore earlier hearlier).1]
    exact Nat.le_min.mpr ⟨hle, hcount⟩
  case position =>
    have hall : q = ((ofFrames frameCount).performAll earlier).performAll
        (later ++ .animate started :: ticksAt before) := by
      rw [← performAll_append, ← List.append_assoc, ← hhistory, performAll_append, ← hp]
      rfl
    rw [hall, position_performAll (by simp [hrestart, restart_notMem_ticksAt]), hnone]
    exact Option.or_none

/-- Behind a frame that has been sought again: it is not handed out twice, even by a tick from
before the start; later ticks hand out the next frame, end the animation and find it over. -/
theorem ticks_hand_out_frames_behind_seek :
    let p := (ofFrames 4).performAll [.step, .step, .seek 1]
    let times : List Duration := [⟨0⟩, ⟨33000005⟩, ⟨170000000⟩, ⟨180000000⟩]
    4 ≤ maxIndex ∧ times.Pairwise (·.nanos ≤ ·.nanos) ∧
      (∀ now ∈ times, (now.nanos - 5) / p.interval.nanos < 2 ^ 64) ∧
      ((p.animate ⟨5⟩).tick ⟨0⟩).1 = .unchanged 1 ∧
      (((p.animate ⟨5⟩).performAll (ticksAt [⟨0⟩])).tick ⟨33000005⟩).1 = .render 2 ∧
      (((p.animate ⟨5⟩).performAll (ticksAt [⟨0⟩, ⟨33000005⟩])).tick ⟨170000000⟩).1 = .finished ∧
      (((p.animate ⟨5⟩).performAll (ticksAt [⟨0⟩, ⟨33000005⟩, ⟨170000000⟩])).tick
        ⟨180000000⟩).1 = .idle := by
  intro p times
  have hcount : 4 ≤ maxIndex := by decide
  have htimes : times.Pairwise (·.nanos ≤ ·.nanos) := by decide
  have hfit : ∀ now ∈ times, (now.nanos - 5) / p.interval.nanos < 2 ^ 64 := by decide
  obtain ⟨-, hticks, -⟩ := ticks_hand_out_due_frames hcount (p := p) rfl ⟨5⟩ htimes hfit
  refine ⟨hcount, htimes, hfit, ?_, ?_, ?_, ?_⟩
  · exact (congrArg Prod.fst ((hticks [] ⟨0⟩ _ rfl).1 (by decide))).trans (by decide)
  · exact (congrArg Prod.fst ((hticks [⟨0⟩] ⟨33000005⟩ _ rfl).1 (by decide))).trans (by decide)
  · exact congrArg Prod.fst
      ((hticks [⟨0⟩, ⟨33000005⟩] ⟨170000000⟩ _ rfl).2.1 (by decide) (by decide))
  · exact congrArg Prod.fst
      ((hticks [⟨0⟩, ⟨33000005⟩, ⟨170000000⟩] ⟨180000000⟩ _ rfl).2.2.1 (by decide))

end Bitplane.Playback
