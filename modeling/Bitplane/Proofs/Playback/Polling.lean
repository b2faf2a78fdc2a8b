import Bitplane.Proofs.Playback.Ticks

/-! # Polling an animation

A loop that asks a fresh animation for its frames at a fixed pace ends, and how often it
asks follows from the number of frames and from the two paces. If it asks at least once per
frame it misses none; if it asks less often, every answer is a new frame.
-/

namespace Bitplane.Playback

variable {p : Playback} {poll now stop : Duration} {ticks : List Tick} {k : Nat}

/-- The ticks of a loop that asks at `now` and every `poll` after it, and the time at which it
finds the animation over. -/
inductive Polled (poll : Duration) : Playback → Duration → List Tick → Duration → Prop
  | done {p : Playback} {now : Duration} : (p.tick now).1 = .finished → Polled poll p now [] now
  | again {p q : Playback} {now stop : Duration} {tick : Tick} {ticks : List Tick} :
      p.tick now = (tick, q) → tick ≠ .finished → tick ≠ .idle →
      Polled poll q ⟨now.nanos + poll.nanos⟩ ticks stop →
      Polled poll p now (tick :: ticks) stop

theorem Polled.ticksFrom_eq (h : Polled poll p now ticks stop) {fuel : Nat}
    (hfuel : ticks.length < fuel) (found : List Tick) :
    ticksFrom poll fuel now found p = (found.reverse ++ ticks, stop) := by
  induction h generalizing fuel found with
  | @done p now hover =>
    obtain ⟨fuel, rfl⟩ := Nat.exists_eq_add_one_of_ne_zero (Nat.ne_of_gt hfuel)
    rcases htick : p.tick now with ⟨tick, q⟩
    rw [htick] at hover
    subst hover
    simp only [ticksFrom, htick, List.append_nil]
  | @again p q now stop tick ticks htick hfinished hidle _ ih =>
    obtain ⟨fuel, rfl⟩ := Nat.exists_eq_add_one_of_ne_zero (Nat.ne_of_gt (Nat.zero_lt_of_lt hfuel))
    have hrest := ih (Nat.lt_of_succ_lt_succ hfuel) (tick :: found)
    rw [List.reverse_cons, List.append_assoc, List.singleton_append] at hrest
    rw [← hrest]
    cases tick with
    | finished => exact absurd rfl hfinished
    | idle => exact absurd rfl hidle
    | render => simp only [ticksFrom, htick]
    | unchanged => simp only [ticksFrom, htick]

/-! ## One poll after the other -/

def pollTimes (poll : Duration) (polls : Nat) : List Duration :=
  (List.range polls).map fun k => ⟨k * poll.nanos⟩

def behindPolls (p : Playback) (poll : Duration) (polls : Nat) : Playback :=
  p.performAll (ticksAt (pollTimes poll polls))

/-- What the loop finds behind this many polls. -/
def answer (p : Playback) (poll : Duration) (polls : Nat) : Tick :=
  ((p.behindPolls poll polls).tick ⟨polls * poll.nanos⟩).1

def duePolled (p : Playback) (poll : Duration) (polls : Nat) : Nat :=
  polls * poll.nanos / p.interval.nanos

theorem behindPolls_succ (p : Playback) (poll : Duration) (k : Nat) :
    p.behindPolls poll (k + 1) = ((p.behindPolls poll k).tick ⟨k * poll.nanos⟩).2 := by
  rw [behindPolls, pollTimes, List.range_succ, List.map_append, ticksAt, List.map_append,
    performAll_append]
  rfl

/-- An animation of all frames from time zero on, of which some are due until this many polls
have been made. -/
structure LastsFor (p : Playback) (poll : Duration) (polls : Nat) : Prop where
  mode_eq : p.mode = .animating ⟨0⟩ 0
  position_eq : p.position = none
  frameCount_le : p.frameCount ≤ maxIndex
  due_lt : ∀ k < polls, p.duePolled poll k < p.frameCount
  le_due : p.frameCount ≤ p.duePolled poll polls
  due_fits : p.duePolled poll polls < 2 ^ 64

namespace LastsFor

variable {polls : Nat} (h : p.LastsFor poll polls)
include h

theorem dueFrame_eq (hk : k ≤ polls) :
    p.dueFrame ⟨0⟩ ⟨k * poll.nanos⟩ 0 = min (p.duePolled poll k) maxIndex := by
  have hgone : p.framesGone ⟨k * poll.nanos⟩ = p.duePolled poll k :=
    framesGone_of_animating h.mode_eq
  have hle : p.duePolled poll k ≤ p.duePolled poll polls :=
    Nat.div_le_div_right (Nat.mul_le_mul_right _ hk)
  rw [Playback.dueFrame_eq h.mode_eq (hgone ▸ Nat.lt_of_le_of_lt hle h.due_fits), hgone,
    Nat.zero_add]

theorem dueFrame_lt (hk : k < polls) : p.dueFrame ⟨0⟩ ⟨k * poll.nanos⟩ 0 < p.frameCount := by
  rw [h.dueFrame_eq (Nat.le_of_lt hk)]
  exact Nat.lt_of_le_of_lt (Nat.min_le_left _ _) (h.due_lt k hk)

theorem dueFrame_lt_of_mem (hk : k ≤ polls) :
    ∀ now ∈ pollTimes poll k, p.dueFrame ⟨0⟩ now 0 < p.frameCount := by
  intro now hnow
  obtain ⟨j, hj, rfl⟩ := List.mem_map.mp hnow
  exact h.dueFrame_lt (Nat.lt_of_lt_of_le (List.mem_range.mp hj) hk)

theorem tick_eq (hk : k < polls) : (p.behindPolls poll k).tick ⟨k * poll.nanos⟩ =
    (if (p.behindPolls poll k).position = some (p.duePolled poll k)
      then .unchanged (p.duePolled poll k) else .render (p.duePolled poll k),
    { p.behindPolls poll k with
      cursor := p.duePolled poll k + 1
      position := some (p.duePolled poll k) }) := by
  have htick := tick_of_all_lt p _ _ h.mode_eq (h.dueFrame_lt_of_mem (Nat.le_of_lt hk))
    (h.dueFrame_lt hk)
  have hdue := h.due_lt k hk
  rwa [h.dueFrame_eq (Nat.le_of_lt hk), Nat.min_eq_left (by have := h.frameCount_le; omega)]
    at htick

theorem answer_eq (hk : k < polls) : p.answer poll k =
    if (p.behindPolls poll k).position = some (p.duePolled poll k)
      then .unchanged (p.duePolled poll k) else .render (p.duePolled poll k) :=
  congrArg Prod.fst (h.tick_eq hk)

theorem tick_last : ((p.behindPolls poll polls).tick ⟨polls * poll.nanos⟩).1 = .finished := by
  have hle : p.frameCount ≤ p.dueFrame ⟨0⟩ ⟨polls * poll.nanos⟩ 0 := by
    rw [h.dueFrame_eq (Nat.le_refl _)]
    exact Nat.le_min.mpr ⟨h.le_due, h.frameCount_le⟩
  exact congrArg Prod.fst
    (tick_of_all_lt_of_le p _ _ h.mode_eq (h.dueFrame_lt_of_mem (Nat.le_refl _)) hle)

theorem position_succ (hk : k < polls) :
    (p.behindPolls poll (k + 1)).position = some (p.duePolled poll k) := by
  rw [behindPolls_succ, h.tick_eq hk]

theorem polled_behind (hk : k ≤ polls) : Polled poll (p.behindPolls poll k) ⟨k * poll.nanos⟩
    ((List.range' k (polls - k)).map (p.answer poll)) ⟨polls * poll.nanos⟩ := by
  generalize hleft : polls - k = left
  induction left generalizing k with
  | zero =>
    obtain rfl : k = polls := by omega
    exact .done h.tick_last
  | succ left ih =>
    have hlt : k < polls := by omega
    have hrest := ih (k := k + 1) hlt (by omega)
    rw [behindPolls_succ, Nat.succ_mul] at hrest
    rw [List.range'_succ, List.map_cons]
    have hanswer := h.answer_eq hlt
    refine .again rfl ?_ ?_ hrest
    · rw [hanswer]
      split <;> nofun
    · rw [hanswer]
      split <;> nofun

theorem polled : Polled poll p ⟨0⟩ ((List.range polls).map (p.answer poll))
    ⟨polls * poll.nanos⟩ := by
  have hall := h.polled_behind (Nat.zero_le polls)
  rwa [Nat.zero_mul, Nat.sub_zero, ← List.range_eq_range'] at hall

theorem handedOut?_answer (hk : k < polls) : (p.answer poll k).handedOut? =
    if (p.behindPolls poll k).position = some (p.duePolled poll k) then none
    else some (p.duePolled poll k) := by
  rw [h.answer_eq hk]
  split <;> rfl

theorem handedOut?_answer_zero (hk : 0 < polls) :
    (p.answer poll 0).handedOut? = some (p.duePolled poll 0) := by
  rw [h.handedOut?_answer hk, if_neg]
  rw [show (p.behindPolls poll 0).position = none from h.position_eq]
  nofun

theorem handedOut?_answer_succ (hk : k + 1 < polls) : (p.answer poll (k + 1)).handedOut? =
    if p.duePolled poll k = p.duePolled poll (k + 1) then none
    else some (p.duePolled poll (k + 1)) := by
  rw [h.handedOut?_answer hk, h.position_succ (Nat.lt_of_succ_lt hk)]
  simp only [Option.some.injEq]

end LastsFor

/-! ## The frames handed out -/

def framesPolled (p : Playback) (poll : Duration) (polls : Nat) : List Nat :=
  ((List.range polls).map (p.answer poll)).filterMap Tick.handedOut?

theorem framesPolled_succ (p : Playback) (poll : Duration) (k : Nat) :
    p.framesPolled poll (k + 1) =
      p.framesPolled poll k ++ (p.answer poll k).handedOut?.toList := by
  simp only [framesPolled, List.range_succ, List.map_append, List.map_singleton,
    List.filterMap_append]
  cases hframe : (p.answer poll k).handedOut? <;> simp [hframe]

theorem duePolled_zero (p : Playback) (poll : Duration) : p.duePolled poll 0 = 0 := by
  rw [duePolled, Nat.zero_mul, Nat.zero_div]

theorem duePolled_mono {j : Nat} (h : j ≤ k) : p.duePolled poll j ≤ p.duePolled poll k :=
  Nat.div_le_div_right (Nat.mul_le_mul_right _ h)

theorem duePolled_succ_le (hinterval : 0 < p.interval.nanos)
    (hfast : poll.nanos ≤ p.interval.nanos) (k : Nat) :
    p.duePolled poll (k + 1) ≤ p.duePolled poll k + 1 := by
  rw [duePolled, duePolled, ← Nat.add_div_right _ hinterval, Nat.succ_mul]
  exact Nat.div_le_div_right (Nat.add_le_add_left hfast _)

theorem duePolled_lt_succ (hinterval : 0 < p.interval.nanos)
    (hslow : p.interval.nanos ≤ poll.nanos) (k : Nat) :
    p.duePolled poll k < p.duePolled poll (k + 1) := by
  rw [duePolled, duePolled, Nat.lt_iff_add_one_le, ← Nat.add_div_right _ hinterval, Nat.succ_mul]
  exact Nat.div_le_div_right (Nat.add_le_add_left hslow _)

namespace LastsFor

variable {polls : Nat} (h : p.LastsFor poll polls) (hinterval : 0 < p.interval.nanos)
include h hinterval

theorem framesPolled_succ_of_le (hfast : poll.nanos ≤ p.interval.nanos) (hk : k < polls) :
    p.framesPolled poll (k + 1) = List.range (p.duePolled poll k + 1) := by
  induction k with
  | zero =>
    rw [framesPolled_succ, h.handedOut?_answer_zero hk, duePolled_zero]
    rfl
  | succ k ih =>
    have hnext := duePolled_succ_le hinterval hfast k
    have hmono : p.duePolled poll k ≤ p.duePolled poll (k + 1) :=
      duePolled_mono (Nat.le_add_right k 1)
    rw [framesPolled_succ, ih (Nat.lt_of_succ_lt hk), h.handedOut?_answer_succ hk]
    split
    case isTrue hsame => rw [hsame, Option.toList_none, List.append_nil]
    case isFalse hnew =>
      have hdue : p.duePolled poll (k + 1) = p.duePolled poll k + 1 := by omega
      rw [Option.toList_some, hdue, ← List.range_succ]

theorem framesPolled_of_ge (hslow : p.interval.nanos ≤ poll.nanos) (hk : k ≤ polls) :
    p.framesPolled poll k = (List.range k).map (p.duePolled poll) := by
  induction k with
  | zero => rfl
  | succ k ih =>
    have hnew : (p.answer poll k).handedOut? = some (p.duePolled poll k) := by
      cases k with
      | zero => exact h.handedOut?_answer_zero hk
      | succ k =>
        rw [h.handedOut?_answer_succ hk,
          if_neg (Nat.ne_of_lt (duePolled_lt_succ hinterval hslow k))]
    rw [framesPolled_succ, ih (Nat.le_of_succ_le hk), hnew, List.range_succ, List.map_append]
    rfl

theorem framesPolled_eq_range (hfast : poll.nanos ≤ p.interval.nanos) :
    p.framesPolled poll polls = List.range p.frameCount := by
  cases polls with
  | zero =>
    have hlast := h.le_due
    rw [duePolled_zero, Nat.le_zero] at hlast
    rw [hlast]
    rfl
  | succ k =>
    have hnext := duePolled_succ_le hinterval hfast k
    have hlt := h.due_lt k (Nat.lt_succ_self k)
    have hlast := h.le_due
    rw [h.framesPolled_succ_of_le hinterval hfast (Nat.lt_succ_self k)]
    congr 1
    omega

theorem pairwise_framesPolled : (p.framesPolled poll polls).Pairwise (· < ·) := by
  rcases Nat.le_total poll.nanos p.interval.nanos with hfast | hslow
  · rw [h.framesPolled_eq_range hinterval hfast]
    exact List.pairwise_lt_range
  · rw [h.framesPolled_of_ge hinterval hslow (Nat.le_refl _)]
    exact List.pairwise_lt_range.map _ fun _ _ hlt =>
      strictMono_nat_of_lt_succ (duePolled_lt_succ hinterval hslow) hlt

theorem lt_of_mem_framesPolled {frame : Nat} (hframe : frame ∈ p.framesPolled poll polls) :
    frame < p.frameCount := by
  rcases Nat.le_total poll.nanos p.interval.nanos with hfast | hslow
  · rw [h.framesPolled_eq_range hinterval hfast] at hframe
    exact List.mem_range.mp hframe
  · rw [h.framesPolled_of_ge hinterval hslow (Nat.le_refl _)] at hframe
    obtain ⟨k, hk, rfl⟩ := List.mem_map.mp hframe
    exact h.due_lt k (List.mem_range.mp hk)

theorem length_framesPolled :
    (p.framesPolled poll polls).length = min p.frameCount polls := by
  rcases Nat.le_total poll.nanos p.interval.nanos with hfast | hslow
  · have hle : (p.framesPolled poll polls).length ≤ polls := by
      rw [framesPolled, List.filterMap_map]
      exact Nat.le_trans (List.length_filterMap_le _ _) (Nat.le_of_eq List.length_range)
    rw [h.framesPolled_eq_range hinterval hfast, List.length_range] at hle ⊢
    exact (Nat.min_eq_left hle).symm
  · have hle : polls ≤ p.frameCount := by
      cases polls with
      | zero => exact Nat.zero_le _
      | succ k =>
        have hdue : k ≤ p.duePolled poll k :=
          (strictMono_nat_of_lt_succ (duePolled_lt_succ hinterval hslow)).le_apply
        exact Nat.lt_of_le_of_lt hdue (h.due_lt k (Nat.lt_succ_self k))
    rw [h.framesPolled_of_ge hinterval hslow (Nat.le_refl _), List.length_map, List.length_range,
      Nat.min_eq_right hle]

end LastsFor

/-- A loop that polls an animation ends by itself behind the last poll. It hands out no more
than one frame a poll, in their order, and all frames if it polls often enough. -/
theorem LastsFor.exists_polled {polls : Nat} (h : p.LastsFor poll polls)
    (hinterval : 0 < p.interval.nanos) : ∃ ticks,
      Polled poll p ⟨0⟩ ticks ⟨polls * poll.nanos⟩ ∧ ticks.length = polls ∧
      (ticks.filterMap Tick.handedOut?).length = min p.frameCount polls ∧
      (ticks.filterMap Tick.handedOut?).Pairwise (· < ·) ∧
      (∀ frame ∈ ticks.filterMap Tick.handedOut?, frame < p.frameCount) ∧
      (poll.nanos ≤ p.interval.nanos →
        ticks.filterMap Tick.handedOut? = List.range p.frameCount) :=
  ⟨(List.range polls).map (p.answer poll), h.polled, by rw [List.length_map, List.length_range],
    h.length_framesPolled hinterval, h.pairwise_framesPolled hinterval,
    fun _ hframe => h.lt_of_mem_framesPolled hinterval hframe, h.framesPolled_eq_range hinterval⟩

/-! ## The number of polls -/

theorem lastsFor_ceilDiv (hinterval : 0 < p.interval.nanos) (hpoll : 0 < poll.nanos)
    (hmode : p.mode = .animating ⟨0⟩ 0) (hposition : p.position = none)
    (hcount : p.frameCount ≤ maxIndex)
    (hfit : p.duePolled poll (p.frameCount * p.interval.nanos ⌈/⌉ poll.nanos) < 2 ^ 64) :
    p.LastsFor poll (p.frameCount * p.interval.nanos ⌈/⌉ poll.nanos) := by
  have hlt_iff (k : Nat) : p.duePolled poll k < p.frameCount ↔
      k < p.frameCount * p.interval.nanos ⌈/⌉ poll.nanos := by
    rw [duePolled, Nat.div_lt_iff_lt_mul hinterval, ← Nat.not_le, ← Nat.not_le,
      ceilDiv_le_iff_le_mul hpoll, Nat.mul_comm k]
  refine ⟨hmode, hposition, hcount, fun k hk => (hlt_iff k).mpr hk, ?_, hfit⟩
  exact Nat.le_of_not_lt fun hlt => Nat.lt_irrefl _ ((hlt_iff _).mp hlt)

theorem duePolled_ceilDiv_lt (hmillisecond : (Duration.ofMillis 1).nanos ≤ p.interval.nanos)
    (hpoll : 0 < poll.nanos) (hcount : p.frameCount < 2 ^ 63)
    (hfit : poll.nanos < (Duration.ofMillis (2 ^ 64)).nanos) :
    p.duePolled poll (p.frameCount * p.interval.nanos ⌈/⌉ poll.nanos) < 2 ^ 64 := by
  have hinterval : 0 < p.interval.nanos := Nat.lt_of_lt_of_le (by decide) hmillisecond
  set whole := p.frameCount * p.interval.nanos with hwhole
  rcases Nat.lt_or_ge whole poll.nanos with hslow | hfast
  · have hone : whole ⌈/⌉ poll.nanos ≤ 1 := by
      rw [ceilDiv_le_iff_le_mul hpoll, Nat.mul_one]
      exact Nat.le_of_lt hslow
    rw [duePolled, Nat.div_lt_iff_lt_mul hinterval]
    calc (whole ⌈/⌉ poll.nanos) * poll.nanos
      _ ≤ poll.nanos := Nat.le_trans (Nat.mul_le_mul_right _ hone) (Nat.le_of_eq (Nat.one_mul _))
      _ < (Duration.ofMillis (2 ^ 64)).nanos := hfit
      _ = 2 ^ 64 * (Duration.ofMillis 1).nanos := by decide
      _ ≤ 2 ^ 64 * p.interval.nanos := Nat.mul_le_mul_left _ hmillisecond
  · have hpolls : whole ⌈/⌉ poll.nanos ≤ whole / poll.nanos + 1 := by
      rw [ceilDiv_le_iff_le_mul hpoll]
      exact Nat.le_of_lt (Nat.lt_mul_div_succ _ hpoll)
    rw [duePolled, Nat.div_lt_iff_lt_mul hinterval]
    calc (whole ⌈/⌉ poll.nanos) * poll.nanos
      _ ≤ (whole / poll.nanos + 1) * poll.nanos := Nat.mul_le_mul_right _ hpolls
      _ ≤ whole + whole := by
        rw [Nat.add_mul, Nat.one_mul]
        exact Nat.add_le_add (Nat.div_mul_le_self _ _) hfast
      _ = (p.frameCount + p.frameCount) * p.interval.nanos := by rw [hwhole, Nat.add_mul]
      _ < 2 ^ 64 * p.interval.nanos := Nat.mul_lt_mul_of_pos_right (by omega) hinterval

theorem ticks_eq_of_polled (hpoll : 0 < poll.nanos)
    (h : Polled poll (p.animate ⟨0⟩) ⟨0⟩ ticks stop)
    (hlength : ticks.length ≤ p.frameCount * p.interval.nanos ⌈/⌉ poll.nanos) :
    p.ticks poll = (ticks, stop) := by
  refine h.ticksFrom_eq (Nat.lt_succ_of_le (Nat.le_trans hlength ?_)) []
  rw [ceilDiv_le_iff_le_mul hpoll]
  exact Nat.le_of_lt (Nat.lt_mul_div_succ _ hpoll)

end Bitplane.Playback
