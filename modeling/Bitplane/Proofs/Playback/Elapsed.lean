import Bitplane.Proofs.Playback.History

/-! # Animations and the time elapsed

An animation shows the frame to which the time since its start leads, and ends once the time
of all its frames has gone by. The intervals gone by are counted in 64 bits. When the count is
full it begins anew, and the animation with it.
-/

namespace Bitplane.Playback

variable {p : Playback} {started now : Duration} {first : Nat}

theorem tick_eq_finished_iff (hmode : p.mode = .animating started first) :
    (p.tick now).1 = .finished ↔ p.frameCount ≤ p.dueFrame started now first := by
  rcases Nat.lt_or_ge (p.dueFrame started now first) p.frameCount with hlt | hge
  · rw [tick_of_lt hmode hlt]
    refine iff_of_false (fun h => ?_) (Nat.not_le_of_lt hlt)
    dsimp only at h
    split at h <;> cases h
  · rw [tick_of_le hmode hge]
    exact iff_of_true rfl hge

/-- As long as the count is not full, the frame due is beyond the last one exactly if the
time of the frames left at the start has gone by. -/
theorem frameCount_le_dueFrame_iff (hmode : p.mode = .animating started first)
    (hinterval : 0 < p.interval.nanos) (hcount : p.frameCount ≤ maxIndex)
    (hfit : p.framesGone now < 2 ^ 64) :
    p.frameCount ≤ p.dueFrame started now first ↔
      (p.frameCount - first) * p.interval.nanos ≤ now.nanos - started.nanos := by
  rw [dueFrame_eq hmode hfit, Nat.le_min, and_iff_left hcount, framesGone_of_animating hmode,
    ← Nat.sub_le_iff_le_add', Nat.le_div_iff_mul_le hinterval]

theorem dueFrame_eq_of_lt (hmode : p.mode = .animating started first)
    (hcount : p.frameCount ≤ maxIndex) (hfit : p.framesGone now < 2 ^ 64)
    (hlt : p.dueFrame started now first < p.frameCount) :
    p.dueFrame started now first = first + p.framesGone now := by
  rw [dueFrame_eq hmode hfit] at hlt ⊢
  omega

theorem dueFrame_add_count (p : Playback) (hinterval : 0 < p.interval.nanos)
    (hlater : started.nanos ≤ now.nanos) (first : Nat) :
    p.dueFrame started ⟨now.nanos + 2 ^ 64 * p.interval.nanos⟩ first =
      p.dueFrame started now first := by
  have hgone : (now.nanos + 2 ^ 64 * p.interval.nanos - started.nanos) / p.interval.nanos =
      (now.nanos - started.nanos) / p.interval.nanos + 2 ^ 64 := by
    rw [Nat.sub_add_comm hlater, Nat.add_mul_div_right _ _ hinterval]
  rw [dueFrame, hgone]
  exact congrArg (fun gone => min (first + gone) maxIndex) (Nat.add_mod_right _ (2 ^ 64))

theorem tick_congr {later : Duration} (hmode : p.mode = .animating started first)
    (hdue : p.dueFrame started later first = p.dueFrame started now first) :
    p.tick later = p.tick now := by
  rw [tick, tick, hmode]
  simp only [hdue]

/-- An animation from frame `first` since `started`. As long as fewer than 2 ^ 64 intervals
have gone by, a tick ends the animation exactly if the time elapsed is at least that of the
frames from `first` on, and else finds the frame to which this time leads, handed out anew
unless it is the position already. A clock behind the start counts as one at the start. But
2 ^ 64 intervals later every tick does the same again: an animation that is asked that late
has not ended, it is back at its beginning. -/
theorem ticks_keep_to_time_elapsed (hmode : p.mode = .animating started first)
    (hinterval : (Duration.ofMillis 1).nanos ≤ p.interval.nanos)
    (hcount : p.frameCount ≤ maxIndex) :
    (∀ now : Duration,
      let elapsed := now.nanos - started.nanos
      let due := first + elapsed / p.interval.nanos
      elapsed / p.interval.nanos < 2 ^ 64 →
        ((p.tick now).1 = .finished ↔ (p.frameCount - first) * p.interval.nanos ≤ elapsed) ∧
        ((p.tick now).1 ≠ .finished →
          (p.tick now).1 = if p.position = some due then .unchanged due else .render due)) ∧
    ∀ now : Duration, started.nanos ≤ now.nanos →
      p.tick ⟨now.nanos + 2 ^ 64 * p.interval.nanos⟩ = p.tick now := by
  have hpos : 0 < p.interval.nanos := Nat.lt_of_lt_of_le (by decide) hinterval
  constructor
  · intro now elapsed due hfit
    have hgone : p.framesGone now = elapsed / p.interval.nanos := framesGone_of_animating hmode
    rw [← hgone] at hfit
    refine ⟨(tick_eq_finished_iff hmode).trans
      (frameCount_le_dueFrame_iff hmode hpos hcount hfit), fun hgoing => ?_⟩
    have hlt : p.dueFrame started now first < p.frameCount := by
      rwa [Ne, tick_eq_finished_iff hmode, Nat.not_le] at hgoing
    have hdue : p.dueFrame started now first = due := by
      rw [dueFrame_eq_of_lt hmode hcount hfit hlt, hgone]
    rw [tick_of_lt hmode hlt, hdue]
  · intro now hlater
    exact tick_congr hmode (p.dueFrame_add_count hpos hlater first)

/-- Three frames of 33 milliseconds each: the last nanosecond of the third one, and the end. -/
theorem ticks_keep_to_time_of_three_frames :
    let p := ((ofFrames 4).seek 1).animate ⟨5⟩
    p.mode = .animating ⟨5⟩ 1 ∧ (Duration.ofMillis 1).nanos ≤ p.interval.nanos ∧
      p.frameCount ≤ maxIndex ∧ (p.tick ⟨99000004⟩).1 = .render 3 ∧
      (p.tick ⟨99000005⟩).1 = .finished ∧
      p.tick ⟨99000004 + 2 ^ 64 * 33000000⟩ = p.tick ⟨99000004⟩ := by
  intro p
  have hinterval : (Duration.ofMillis 1).nanos ≤ p.interval.nanos := by decide
  have hcount : p.frameCount ≤ maxIndex := by decide
  obtain ⟨htick, hagain⟩ := ticks_keep_to_time_elapsed (p := p) rfl hinterval hcount
  obtain ⟨hend, hgoing⟩ := htick ⟨99000004⟩ (by decide)
  have hlast : (p.tick ⟨99000004⟩).1 ≠ .finished := fun h => absurd (hend.mp h) (by decide)
  exact ⟨rfl, hinterval, hcount, (hgoing hlast).trans (by decide),
    (htick ⟨99000005⟩ (by decide)).1.mpr (by decide), hagain ⟨99000004⟩ (by decide)⟩

/-- Two frames of a millisecond each, which are over after two milliseconds. A tick that comes
when the count is full finds the first of them due. -/
theorem animation_starts_over_behind_full_count :
    let p := ((ofFrames 2).withInterval (.ofMillis 1)).animate ⟨0⟩
    let now : Duration := .ofMillis (2 ^ 64)
    p.mode = .animating ⟨0⟩ 0 ∧ (Duration.ofMillis 1).nanos ≤ p.interval.nanos ∧
      p.frameCount ≤ maxIndex ∧ (p.frameCount - 0) * p.interval.nanos ≤ now.nanos - 0 ∧
      (p.tick (.ofMillis 2)).1 = .finished ∧ (p.tick now).1 = .render 0 := by
  decide

end Bitplane.Playback
