import Bitplane.Proofs.Playback.History

/-! # The order of frames

As long as the clock does not go back and no frame is stepped over while an animation runs,
the cursor of a playback never goes back, and every frame handed out is behind those before
it. A step in a running animation breaks this: the next tick counts from where the animation
started.
-/

namespace Bitplane.Playback

variable {p : Playback} {last now started : Duration} {op : Operation} {ops : List Operation}

/-- A running animation has not gone ahead of the clock: the cursor is at most at the frame
due, or right behind it if that frame is the position. -/
def OnCourse (p : Playback) (now : Duration) : Prop :=
  ∀ started first, p.mode = .animating started first →
    p.cursor ≤ p.dueFrame started now first ∨
      p.cursor = p.dueFrame started now first + 1 ∧
        p.position = some (p.dueFrame started now first)

theorem onCourse_of_stepping (hmode : p.mode = .stepping) (now : Duration) : p.OnCourse now := by
  intro started first hanimating
  rw [hmode] at hanimating
  cases hanimating

theorem onCourse_animate (hcursor : p.cursor ≤ maxIndex) (started now : Duration) :
    (p.animate started).OnCourse now := by
  intro _ _ hmode
  cases hmode
  exact .inl (Nat.le_min.mpr ⟨Nat.le_add_right _ _, hcursor⟩)

theorem OnCourse.mono (h : p.OnCourse last) (hlater : last.nanos ≤ now.nanos)
    (hfit : p.framesGone now < 2 ^ 64) : p.OnCourse now := by
  intro started first hmode
  have hdue := dueFrame_mono hmode hlater hfit
  rcases h started first hmode with hle | ⟨hcursor, hposition⟩
  · exact .inl (Nat.le_trans hle hdue)
  · rcases Nat.eq_or_lt_of_le hdue with heq | hlt
    · exact .inr (heq ▸ ⟨hcursor, hposition⟩)
    · exact .inl (hcursor ▸ hlt)

/-- The cursor has not gone back, and a frame handed out lies between where the cursor was
and where it is. -/
structure Advances (p : Playback) (result : Option Nat × Playback) : Prop where
  cursor_le : p.cursor ≤ result.2.cursor
  between : ∀ frame ∈ result.1, p.cursor ≤ frame ∧ frame < result.2.cursor

theorem advances_of_none {q : Playback} (h : p.cursor ≤ q.cursor) : p.Advances (none, q) :=
  ⟨h, fun frame hframe => absurd hframe (Option.not_mem_none frame)⟩

theorem advances_step (p : Playback) : p.Advances p.step := by
  unfold step
  split
  case isTrue => exact advances_of_none (Nat.le_refl _)
  case isFalse =>
    refine ⟨Nat.le_succ _, fun frame hframe => ?_⟩
    obtain rfl := Option.some.inj hframe
    exact ⟨Nat.le_refl _, Nat.lt_succ_self _⟩

theorem OnCourse.tick (h : p.OnCourse now) (hcursor : p.cursor ≤ p.frameCount) :
    p.Advances (p.perform (.tick now)) ∧ (p.tick now).2.OnCourse now := by
  simp only [perform]
  cases hmode : p.mode with
  | stepping =>
    rw [tick_of_stepping hmode]
    exact ⟨advances_of_none (Nat.le_refl _), h⟩
  | animating started first =>
    rcases Nat.lt_or_ge (p.dueFrame started now first) p.frameCount with hlt | hge
    case inr =>
      rw [tick_of_le hmode hge]
      exact ⟨advances_of_none hcursor, onCourse_of_stepping rfl now⟩
    case inl =>
      rw [tick_of_lt hmode hlt]
      refine ⟨⟨?_, fun frame hframe => ?_⟩, fun _ _ hanimating => ?_⟩
      · rcases h started first hmode with hle | ⟨heq, -⟩
        · exact Nat.le_succ_of_le hle
        · exact Nat.le_of_eq heq
      · -- the frame behind which the cursor stands is the position, and not handed out again
        split at hframe
        case isTrue => cases hframe
        case isFalse hnew =>
          obtain rfl := Option.some.inj hframe
          rcases h started first hmode with hle | ⟨-, hsame⟩
          · exact ⟨hle, Nat.lt_succ_self _⟩
          · exact absurd hsame hnew
      · rw [hmode] at hanimating
        cases hanimating
        exact .inr ⟨rfl, rfl⟩

/-- One operation advances the playback, and leaves it on course at the time that it tells. -/
theorem OnCourse.perform (h : p.OnCourse last) (hcursor : p.cursor ≤ p.frameCount)
    (hcount : p.frameCount ≤ maxIndex) (hop : op.playsOn)
    (hlater : ∀ now ∈ op.time?, last.nanos ≤ now.nanos)
    (hfit : ∀ now, op = .tick now → p.framesGone now < 2 ^ 64)
    (hstep : op = .step → p.isAnimating = false) :
    p.Advances (p.perform op) ∧ (p.perform op).2.OnCourse (op.time?.getD last) := by
  cases op with
  | step =>
    refine ⟨advances_step p, ?_⟩
    have hmode := mode_of_not_animating (hstep rfl)
    refine onCourse_of_stepping ?_ last
    simp only [Playback.perform, Playback.step]
    split <;> exact hmode
  | animate now =>
    exact ⟨advances_of_none (Nat.le_refl _),
      onCourse_animate (Nat.le_trans hcursor hcount) now now⟩
  | tick now => exact (h.mono (hlater now rfl) (hfit now rfl)).tick hcursor
  | stop => exact ⟨advances_of_none (Nat.le_refl _), onCourse_of_stepping rfl last⟩
  | seek => cases hop
  | restart => cases hop
  | setInterval => cases hop

def AdvancesAll (p : Playback) (ops : List Operation) : Prop :=
  ∀ before op after, ops = before ++ op :: after →
    (p.performAll before).Advances ((p.performAll before).perform op)

theorem advancesAll_nil (p : Playback) : p.AdvancesAll [] := by
  intro before op after hsplit
  simp at hsplit

theorem advancesAll_cons_iff : p.AdvancesAll (op :: ops) ↔
    p.Advances (p.perform op) ∧ (p.perform op).2.AdvancesAll ops := by
  constructor
  · intro h
    exact ⟨h [] op ops rfl, fun before op' after hsplit =>
      h (op :: before) op' after (congrArg (op :: ·) hsplit)⟩
  · rintro ⟨hfirst, hrest⟩ before op' after hsplit
    cases before with
    | nil =>
      cases hsplit
      exact hfirst
    | cons _ before =>
      cases hsplit
      exact hrest before op' after rfl

theorem AdvancesAll.handedOut (h : p.AdvancesAll ops) :
    (p.handedOut ops).Pairwise (· < ·) ∧ ∀ frame ∈ p.handedOut ops, p.cursor ≤ frame := by
  induction ops generalizing p with
  | nil => exact ⟨.nil, nofun⟩
  | cons op rest ih =>
    obtain ⟨hfirst, hrest⟩ := advancesAll_cons_iff.mp h
    obtain ⟨hsorted, hbound⟩ := ih hrest
    simp only [Playback.handedOut, List.pairwise_append, List.mem_append, Option.mem_toList]
    refine ⟨⟨?_, hsorted, fun frame hframe later hlater => ?_⟩, ?_⟩
    · cases (p.perform op).1 <;> simp
    · exact Nat.lt_of_lt_of_le (hfirst.between frame hframe).2 (hbound later hlater)
    · rintro frame (hframe | hframe)
      · exact (hfirst.between frame hframe).1
      · exact Nat.le_trans hfirst.cursor_le (hbound frame hframe)

theorem OnCourse.advancesAll {frameCount : Nat} (h : p.OnCourse last) (hp : p.Sound frameCount)
    (hcount : frameCount ≤ maxIndex) (hops : ∀ op ∈ ops, op.playsOn)
    (htimes : (last :: ops.filterMap Operation.time?).Pairwise (·.nanos ≤ ·.nanos))
    (hfit : ∀ before now after, ops = before ++ .tick now :: after →
      (p.performAll before).framesGone now < 2 ^ 64)
    (hsteps : ∀ before after, ops = before ++ .step :: after →
      (p.performAll before).isAnimating = false) : p.AdvancesAll ops := by
  induction ops generalizing p last with
  | nil => exact p.advancesAll_nil
  | cons op rest ih =>
    have hnext : (∀ now ∈ op.time?, last.nanos ≤ now.nanos) ∧
        (op.time?.getD last :: rest.filterMap Operation.time?).Pairwise (·.nanos ≤ ·.nanos) := by
      cases htime : op.time? with
      | none =>
        rw [List.filterMap_cons_none htime] at htimes
        exact ⟨nofun, htimes⟩
      | some now =>
        rw [List.filterMap_cons_some htime, List.pairwise_cons] at htimes
        refine ⟨fun _ hnow => ?_, htimes.2⟩
        obtain rfl := Option.some.inj hnow
        exact htimes.1 now List.mem_cons_self
    obtain ⟨hfirst, hcourse⟩ := h.perform (hp.frameCount_eq ▸ hp.cursor_le)
      (hp.frameCount_eq ▸ hcount) (hops op List.mem_cons_self) hnext.1
      (fun now hop => hfit [] now rest (congrArg (· :: rest) hop))
      (fun hop => hsteps [] rest (congrArg (· :: rest) hop))
    refine advancesAll_cons_iff.mpr ⟨hfirst, ih hcourse (hp.perform op)
      (fun op' hop' => hops op' (List.mem_cons_of_mem _ hop')) hnext.2 ?_ ?_⟩
    · exact fun before now after hsplit =>
        hfit (op :: before) now after (congrArg (op :: ·) hsplit)
    · exact fun before after hsplit => hsteps (op :: before) after (congrArg (op :: ·) hsplit)

/-- From any playback that is not animating, whatever is done to it but to seek, to restart
and to step while an animation runs, at times that do not decrease: no operation moves the
cursor back, and the frames handed out increase. -/
theorem plays_forward_without_steps_in_animations {frameCount : Nat}
    (hcount : frameCount ≤ maxIndex) {history : List Operation} {p : Playback}
    (hp : p = (ofFrames frameCount).performAll history) (hstill : p.isAnimating = false)
    {ops : List Operation} (hops : ∀ op ∈ ops, op.playsOn)
    (htimes : (ops.filterMap Operation.time?).Pairwise (·.nanos ≤ ·.nanos))
    (hfit : ∀ before now after, ops = before ++ .tick now :: after →
      (p.performAll before).framesGone now < 2 ^ 64)
    (hsteps : ∀ before after, ops = before ++ .step :: after →
      (p.performAll before).isAnimating = false) :
    (∀ before op after, ops = before ++ op :: after →
      (p.performAll before).cursor ≤ (p.performAll (before ++ [op])).cursor) ∧
    (p.handedOut ops).Pairwise (· < ·) := by
  have hsound : p.Sound frameCount := hp ▸ (sound_ofFrames frameCount).performAll history
  have hall : p.AdvancesAll ops :=
    (onCourse_of_stepping (mode_of_not_animating hstill) ⟨0⟩).advancesAll hsound hcount hops
      (List.pairwise_cons.mpr ⟨fun _ _ => Nat.zero_le _, htimes⟩) hfit hsteps
  refine ⟨fun before op after hsplit => ?_, hall.handedOut.1⟩
  rw [performAll_append]
  exact (hall before op after hsplit).cursor_le

/-- Steps before an animation and after it has been stopped. -/
theorem plays_forward_around_animation :
    let p := ofFrames 4
    let ops : List Operation :=
      [.step, .animate ⟨0⟩, .tick ⟨0⟩, .tick ⟨40000000⟩, .stop, .step]
    4 ≤ maxIndex ∧ p = (ofFrames 4).performAll [] ∧ p.isAnimating = false ∧
      (∀ op ∈ ops, op.playsOn) ∧
      (ops.filterMap Operation.time?).Pairwise (·.nanos ≤ ·.nanos) ∧
      (∀ before now after, ops = before ++ .tick now :: after →
        (p.performAll before).framesGone now < 2 ^ 64) ∧
      (∀ before after, ops = before ++ .step :: after →
        (p.performAll before).isAnimating = false) ∧
      (p.handedOut ops).Pairwise (· < ·) ∧ p.handedOut ops = [0, 1, 2, 3] := by
  intro p ops
  have hcount : 4 ≤ maxIndex := by decide
  have hops : ∀ op ∈ ops, op.playsOn := by decide
  have htimes : (ops.filterMap Operation.time?).Pairwise (·.nanos ≤ ·.nanos) := by decide
  have hfit : ∀ before now after, ops = before ++ .tick now :: after →
      (p.performAll before).framesGone now < 2 ^ 64 := by
    intro before now after hsplit
    simp [ops, List.cons_eq_append_iff] at hsplit
    obtain ⟨_, rfl, ⟨rfl, rfl, -⟩ | ⟨rfl, rfl, -⟩⟩ := hsplit <;> decide
  have hsteps : ∀ before after, ops = before ++ .step :: after →
      (p.performAll before).isAnimating = false := by
    intro before after hsplit
    simp [ops, List.cons_eq_append_iff] at hsplit
    obtain ⟨rfl, -⟩ | ⟨rfl, -⟩ := hsplit <;> decide
  have hplays := plays_forward_without_steps_in_animations (p := p) hcount
    (show p = (ofFrames 4).performAll [] from rfl) rfl hops htimes hfit hsteps
  exact ⟨hcount, rfl, rfl, hops, htimes, hfit, hsteps, hplays.2, by decide⟩

/-- Both frames are stepped over while an animation waits at the first. Then a tick, told no
later time, takes the cursor back to that frame and hands it out once more. -/
theorem step_in_animation_sends_cursor_back :
    let p := ofFrames 2
    let ops : List Operation := [.animate ⟨0⟩, .step, .step, .step, .tick ⟨0⟩, .step]
    (∀ op ∈ ops, op.playsOn) ∧ (ops.filterMap Operation.time?).Pairwise (·.nanos ≤ ·.nanos) ∧
      (p.performAll (ops.take 4)).cursor = 2 ∧ (p.performAll (ops.take 5)).cursor = 1 ∧
      p.handedOut ops = [0, 1, 0, 1] := by
  decide

end Bitplane.Playback
