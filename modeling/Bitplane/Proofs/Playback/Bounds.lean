import Bitplane.Proofs.Playback.History

/-! # Frames within bounds

Whatever is done to a playback, every frame that it hands out, remembers or animates from is
one of its own, and steps from there on hand out the frames that are left and then nothing.
-/

namespace Bitplane

/-- The frame that a tick names, new or not. -/
def Tick.frame? : Tick → Option Nat
  | .render frame | .unchanged frame => some frame
  | .finished | .idle => none

theorem Tick.mem_frame?_of_mem_handedOut? {tick : Tick} {frame : Nat}
    (h : frame ∈ tick.handedOut?) : frame ∈ tick.frame? := by
  cases tick with
  | render => exact h
  | _ => cases h

namespace Playback

variable {p : Playback} {frameCount frame : Nat} {now : Duration} {op : Operation}

/-! ## One operation -/

theorem step_of_lt (h : p.cursor < p.frameCount) :
    p.step = (some p.cursor, { p with cursor := p.cursor + 1, position := some p.cursor }) :=
  if_neg (Nat.not_le_of_lt h)

theorem step_of_le (h : p.frameCount ≤ p.cursor) : p.step = (none, p) := if_pos h

theorem lt_of_mem_step (h : frame ∈ p.step.1) : frame < p.frameCount := by
  rcases Nat.lt_or_ge p.cursor p.frameCount with hlt | hge
  · rw [step_of_lt hlt] at h
    obtain rfl := Option.some.inj h
    exact hlt
  · rw [step_of_le hge] at h
    cases h

theorem lt_of_mem_frame?_tick (h : frame ∈ (p.tick now).1.frame?) : frame < p.frameCount := by
  cases hmode : p.mode with
  | stepping =>
    rw [tick_of_stepping hmode] at h
    cases h
  | animating started first =>
    rcases Nat.lt_or_ge (p.dueFrame started now first) p.frameCount with hlt | hge
    · -- new or not, the frame named is the one due
      rw [tick_of_lt hmode hlt] at h
      dsimp only at h
      split at h
      all_goals
        obtain rfl := Option.some.inj h
        exact hlt
    · rw [tick_of_le hmode hge] at h
      cases h

theorem lt_of_mem_perform (h : frame ∈ (p.perform op).1) : frame < p.frameCount := by
  cases op with
  | step => exact lt_of_mem_step h
  | tick now => exact lt_of_mem_frame?_tick (Tick.mem_frame?_of_mem_handedOut? h)
  | _ => cases h

theorem mode_tick (p : Playback) (now : Duration) :
    (p.tick now).2.mode = p.mode ∨ (p.tick now).2.mode = .stepping := by
  cases hmode : p.mode with
  | stepping => exact .inr (by rw [tick_of_stepping hmode, hmode])
  | animating started first =>
    rcases Nat.lt_or_ge (p.dueFrame started now first) p.frameCount with hlt | hge
    · exact .inl (by rw [tick_of_lt hmode hlt, hmode])
    · exact .inr (by rw [tick_of_le hmode hge])

theorem mode_perform {started : Duration} {first : Nat}
    (h : (p.perform op).2.mode = .animating started first) :
    p.mode = .animating started first ∨ first = p.cursor := by
  cases op with
  | step =>
    refine .inl ?_
    rw [← h]
    rcases Nat.lt_or_ge p.cursor p.frameCount with hlt | hge
    · simp only [perform, step_of_lt hlt]
    · simp only [perform, step_of_le hge]
  | seek index => exact .inl h
  | restart => cases h
  | animate now =>
    cases h
    exact .inr rfl
  | tick now =>
    rcases p.mode_tick now with hsame | hstepping
    · exact .inl (hsame.symm.trans h)
    · cases hstepping.symm.trans h
  | stop => cases h
  | setInterval interval => exact .inl h

/-! ## Histories -/

/-- A sound playback, all of whose frames are its own: the one handed out last, and the one
from which a running animation started, unless it started right behind them. -/
structure Bounded (p : Playback) (frameCount : Nat) : Prop extends Sound p frameCount where
  position_lt : ∀ frame ∈ p.position, frame < frameCount
  first_le : ∀ started first, p.mode = .animating started first → first ≤ frameCount

theorem bounded_ofFrames (frameCount : Nat) (interval : Duration) :
    ((ofFrames frameCount).withInterval interval).Bounded frameCount where
  toSound := (sound_ofFrames frameCount).perform (.setInterval interval)
  position_lt := nofun
  first_le := nofun

theorem Bounded.perform (h : p.Bounded frameCount) (op : Operation) :
    (p.perform op).2.Bounded frameCount where
  toSound := h.toSound.perform op
  position_lt := by
    intro frame hframe
    by_cases hrestart : op = .restart
    · subst hrestart
      cases hframe
    · rw [position_perform hrestart, Option.mem_def, Option.or_eq_some_iff] at hframe
      rcases hframe with hnew | ⟨-, hold⟩
      · exact h.frameCount_eq ▸ lt_of_mem_perform hnew
      · exact h.position_lt frame hold
  first_le := by
    intro started first hmode
    rcases mode_perform hmode with hrunning | rfl
    · exact h.first_le started first hrunning
    · exact h.cursor_le

theorem Bounded.performAll (h : p.Bounded frameCount) (ops : List Operation) :
    (p.performAll ops).Bounded frameCount := by
  induction ops generalizing p with
  | nil => exact h
  | cons op rest ih => exact ih (h.perform op)

theorem Sound.isFinished_iff (h : p.Sound frameCount) :
    p.isFinished ↔ p.cursor = frameCount := by
  have hcursor := h.cursor_le
  rw [isFinished, h.frameCount_eq, decide_eq_true_iff]
  omega

/-! ## Steps to the end -/

def stepResults (p : Playback) : Nat → List (Option Nat)
  | 0 => []
  | count + 1 => p.step.1 :: p.step.2.stepResults count

def afterSteps (p : Playback) (count : Nat) : Playback :=
  p.performAll (List.replicate count .step)

theorem afterSteps_succ (p : Playback) (count : Nat) :
    p.afterSteps (count + 1) = p.step.2.afterSteps count := rfl

theorem Sound.step_snd (h : p.Sound frameCount) : p.step.2.Sound frameCount := h.perform .step

theorem Sound.stepResults_eq (h : p.Sound frameCount) (count : Nat) :
    p.stepResults count =
      (List.range' p.cursor (min count (frameCount - p.cursor))).map some ++
        List.replicate (count - (frameCount - p.cursor)) none := by
  induction count generalizing p with
  | zero => simp [stepResults]
  | succ count ih =>
    rw [stepResults, ih h.step_snd]
    rcases Nat.lt_or_ge p.cursor frameCount with hlt | hge
    · rw [step_of_lt (h.frameCount_eq ▸ hlt)]
      have hleft : frameCount - p.cursor = (frameCount - (p.cursor + 1)) + 1 := by omega
      rw [hleft, Nat.add_min_add_right, List.range'_succ, Nat.add_sub_add_right]
      rfl
    · rw [step_of_le (h.frameCount_eq ▸ hge), Nat.sub_eq_zero_of_le hge]
      simp [List.replicate_succ]

theorem Sound.cursor_afterSteps (h : p.Sound frameCount) (count : Nat) :
    (p.afterSteps count).cursor = min (p.cursor + count) frameCount := by
  induction count generalizing p with
  | zero => exact (Nat.min_eq_left h.cursor_le).symm
  | succ count ih =>
    rw [afterSteps_succ, ih h.step_snd]
    rcases Nat.lt_or_ge p.cursor frameCount with hlt | hge
    · rw [step_of_lt (h.frameCount_eq ▸ hlt)]
      simp only [Nat.add_assoc, Nat.add_comm 1 count]
    · rw [step_of_le (h.frameCount_eq ▸ hge)]
      dsimp only
      omega

theorem afterSteps_of_le (h : p.frameCount ≤ p.cursor) (count : Nat) : p.afterSteps count = p := by
  induction count with
  | zero => rfl
  | succ count ih => rw [afterSteps_succ, step_of_le h, ih]

theorem Sound.afterSteps_eq (h : p.Sound frameCount) {count : Nat}
    (hcount : frameCount - p.cursor ≤ count) :
    p.afterSteps count = p.afterSteps (frameCount - p.cursor) := by
  obtain ⟨more, rfl⟩ := Nat.exists_eq_add_of_le hcount
  have hend : (p.afterSteps (frameCount - p.cursor)).Sound frameCount := h.performAll _
  have hcursor := h.cursor_le
  have hfinished : frameCount ≤ (p.afterSteps (frameCount - p.cursor)).cursor := by
    rw [h.cursor_afterSteps]
    omega
  rw [afterSteps, List.replicate_add, performAll_append]
  exact afterSteps_of_le (hend.frameCount_eq.symm ▸ hfinished) more

/-- Behind any history every frame named is one of the playback's own, its cursor at most
right behind them, where it is finished. Steps from there on give the frames from the cursor
on and then nothing, and the playback stays as the last frame has left it. -/
theorem histories_stay_within_frames (frameCount : Nat) (interval : Duration)
    (ops : List Operation) :
    let p := ((ofFrames frameCount).withInterval interval).performAll ops
    p.cursor ≤ frameCount ∧
    (Duration.ofMillis 1).nanos ≤ p.interval.nanos ∧
    (∀ frame ∈ p.step.1, frame < frameCount) ∧
    (∀ now, ∀ frame ∈ (p.tick now).1.frame?, frame < frameCount) ∧
    (∀ frame ∈ p.position, frame < frameCount) ∧
    (∀ started first, p.mode = .animating started first → first ≤ frameCount) ∧
    (p.isFinished ↔ p.cursor = frameCount) ∧
    (∀ count, p.stepResults count =
      (List.range' p.cursor (min count (frameCount - p.cursor))).map some ++
        List.replicate (count - (frameCount - p.cursor)) none) ∧
    ∀ count, frameCount - p.cursor ≤ count →
      p.afterSteps count = p.afterSteps (frameCount - p.cursor) := by
  intro p
  have h : p.Bounded frameCount := (bounded_ofFrames frameCount interval).performAll ops
  have hcount := h.frameCount_eq
  refine ⟨h.cursor_le, h.millisecond_le, ?_, ?_, h.position_lt, h.first_le,
    h.isFinished_iff, h.stepResults_eq, fun _ => h.afterSteps_eq⟩
  · exact fun frame hframe => hcount ▸ lt_of_mem_step hframe
  · exact fun now frame hframe => hcount ▸ lt_of_mem_frame?_tick hframe

/-- A seek past the end, a restart, and an animation told a time before it started. Two of
the three frames are left then. -/
theorem three_frames_within_bounds :
    let p := ((ofFrames 3).withInterval ⟨0⟩).performAll
      [.seek 7, .restart, .animate ⟨5000000⟩, .tick ⟨2000000⟩]
    p.cursor = 1 ∧ p.position = some 0 ∧ (∀ frame ∈ p.position, frame < 3) ∧
      p.stepResults 4 = [some 1, some 2, none, none] ∧ p.afterSteps 4 = p.afterSteps 2 := by
  intro p
  obtain ⟨-, -, -, -, hposition, -, -, hresults, hafter⟩ := histories_stay_within_frames 3 ⟨0⟩
    [.seek 7, .restart, .animate ⟨5000000⟩, .tick ⟨2000000⟩]
  exact ⟨by decide, by decide, hposition, hresults 4, hafter 4 (by decide)⟩

end Playback

end Bitplane
