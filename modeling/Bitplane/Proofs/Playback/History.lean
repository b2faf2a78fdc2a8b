import Bitplane.Playback
import Mathlib

/-! # Histories of playbacks

What is done to a playback, one operation after another, and the frames that it hands out on
the way. A playback keeps its frames, its cursor stays among them or right behind, and its
position is the frame handed out last.
-/

namespace Bitplane

/-- The frame that a tick hands out, if it is a new one. -/
def Tick.handedOut? : Tick → Option Nat
  | .render frame => some frame
  | _ => none

namespace Playback

/-! ## Ticks -/

variable {p : Playback} {started now later : Duration} {first : Nat}

/-- The frames that have gone by at `now` in a running animation, in full. -/
def framesGone (p : Playback) (now : Duration) : Nat :=
  match p.mode with
  | .stepping => 0
  | .animating started _ => (now.nanos - started.nanos) / p.interval.nanos

theorem framesGone_of_animating (hmode : p.mode = .animating started first) :
    p.framesGone now = (now.nanos - started.nanos) / p.interval.nanos := by
  rw [framesGone, hmode]

theorem mode_of_not_animating (h : p.isAnimating = false) : p.mode = .stepping := by
  unfold isAnimating at h
  split at h
  · cases h
  · assumption

theorem tick_of_stepping (hmode : p.mode = .stepping) : p.tick now = (.idle, p) := by
  rw [tick, hmode]

theorem tick_of_le (hmode : p.mode = .animating started first)
    (hle : p.frameCount ≤ p.dueFrame started now first) :
    p.tick now = (.finished, { p with mode := .stepping, cursor := p.frameCount }) := by
  rw [tick, hmode]
  exact if_pos hle

theorem tick_of_lt (hmode : p.mode = .animating started first)
    (hlt : p.dueFrame started now first < p.frameCount) :
    p.tick now =
      (if p.position = some (p.dueFrame started now first)
        then .unchanged (p.dueFrame started now first)
        else .render (p.dueFrame started now first),
      { p with
        cursor := p.dueFrame started now first + 1
        position := some (p.dueFrame started now first) }) := by
  simp only [tick, hmode, if_neg (Nat.not_le_of_lt hlt)]
  split
  case isTrue hsame => rw [← hsame]
  case isFalse => rfl

theorem framesGone_mono (hlater : now.nanos ≤ later.nanos) :
    p.framesGone now ≤ p.framesGone later := by
  unfold framesGone
  split
  · exact Nat.le_refl _
  · exact Nat.div_le_div_right (Nat.sub_le_sub_right hlater _)

theorem dueFrame_eq (hmode : p.mode = .animating started first)
    (hfit : p.framesGone now < 2 ^ 64) :
    p.dueFrame started now first = min (first + p.framesGone now) maxIndex := by
  rw [framesGone_of_animating hmode] at hfit ⊢
  exact congrArg (fun gone => min (first + gone) maxIndex) (Nat.mod_eq_of_lt hfit)

theorem dueFrame_mono (hmode : p.mode = .animating started first)
    (hlater : now.nanos ≤ later.nanos) (hfit : p.framesGone later < 2 ^ 64) :
    p.dueFrame started now first ≤ p.dueFrame started later first := by
  have hgone : p.framesGone now ≤ p.framesGone later := framesGone_mono hlater
  rw [dueFrame_eq hmode hfit, dueFrame_eq hmode (Nat.lt_of_le_of_lt hgone hfit)]
  omega

/-! ## Operations -/

inductive Operation where
  | step
  | seek (index : Nat)
  | restart
  | animate (now : Duration)
  | tick (now : Duration)
  | stop
  | setInterval (interval : Duration)
  deriving DecidableEq, Repr

namespace Operation

def time? : Operation → Option Duration
  | animate now | tick now => some now
  | _ => none

/-- Whether an operation goes on from where the playback is, at its pace. -/
def playsOn : Operation → Bool
  | step | animate _ | tick _ | stop => true
  | seek _ | restart | setInterval _ => false

end Operation

/-- The frame that an operation hands out, if any, and the playback after it. -/
def perform (p : Playback) : Operation → Option Nat × Playback
  | .step => p.step
  | .seek index => (none, p.seek index)
  | .restart => (none, p.restart)
  | .animate now => (none, p.animate now)
  | .tick now => ((p.tick now).1.handedOut?, (p.tick now).2)
  | .stop => (none, p.stop)
  | .setInterval interval => (none, p.withInterval interval)

def performAll (p : Playback) (ops : List Operation) : Playback :=
  ops.foldl (fun p op => (p.perform op).2) p

def handedOut : Playback → List Operation → List Nat
  | _, [] => []
  | p, op :: rest => (p.perform op).1.toList ++ handedOut (p.perform op).2 rest

@[simp] theorem performAll_nil (p : Playback) : p.performAll [] = p := rfl

@[simp] theorem performAll_cons (p : Playback) (op : Operation) (rest : List Operation) :
    p.performAll (op :: rest) = (p.perform op).2.performAll rest := rfl

theorem performAll_append (p : Playback) (ops more : List Operation) :
    p.performAll (ops ++ more) = (p.performAll ops).performAll more := List.foldl_append

theorem tick_snd (p : Playback) (now : Duration) :
    (p.tick now).2.frameCount = p.frameCount ∧ (p.tick now).2.interval = p.interval := by
  unfold tick
  dsimp only
  split
  · exact ⟨rfl, rfl⟩
  · split
    · exact ⟨rfl, rfl⟩
    · split <;> exact ⟨rfl, rfl⟩

theorem position_perform {op : Operation} (h : op ≠ .restart) :
    (p.perform op).2.position = (p.perform op).1.or p.position := by
  cases op with
  | restart => exact absurd rfl h
  | step =>
    simp only [perform, step]
    split <;> rfl
  | tick now =>
    simp only [perform]
    cases hmode : p.mode with
    | stepping =>
      rw [tick_of_stepping hmode]
      rfl
    | animating started first =>
      rcases Nat.lt_or_ge (p.dueFrame started now first) p.frameCount with hlt | hge
      · rw [tick_of_lt hmode hlt]
        dsimp only
        split
        case isTrue hsame => exact hsame.symm
        case isFalse => rfl
      · rw [tick_of_le hmode hge]
        rfl
  | _ => rfl

theorem position_performAll {ops : List Operation} (h : .restart ∉ ops) :
    (p.performAll ops).position = (p.handedOut ops).getLast?.or p.position := by
  induction ops generalizing p with
  | nil => rfl
  | cons op rest ih =>
    rw [List.mem_cons, not_or] at h
    rw [performAll_cons, ih h.2, position_perform (Ne.symm h.1), handedOut, List.getLast?_append,
      Option.or_assoc]
    cases (p.perform op).1 <;> rfl

/-! ## What every history keeps -/

/-- The cursor stays among the frames or right behind them, and the interval is never below
a millisecond. -/
structure Sound (p : Playback) (frameCount : Nat) : Prop where
  frameCount_eq : p.frameCount = frameCount
  cursor_le : p.cursor ≤ frameCount
  millisecond_le : (Duration.ofMillis 1).nanos ≤ p.interval.nanos

variable {frameCount : Nat}

theorem sound_ofFrames (frameCount : Nat) : (ofFrames frameCount).Sound frameCount :=
  ⟨rfl, Nat.zero_le _, show 1000000 ≤ 33000000 by decide⟩

theorem Sound.perform (h : p.Sound frameCount) (op : Operation) :
    (p.perform op).2.Sound frameCount := by
  obtain ⟨rfl, hcursor, hinterval⟩ := h
  cases op with
  | step =>
    simp only [Playback.perform, step]
    split
    case isTrue => exact ⟨rfl, hcursor, hinterval⟩
    case isFalse hlt => exact ⟨rfl, Nat.lt_of_not_le hlt, hinterval⟩
  | seek index => exact ⟨rfl, Nat.min_le_right _ _, hinterval⟩
  | restart => exact ⟨rfl, Nat.zero_le _, hinterval⟩
  | animate => exact ⟨rfl, hcursor, hinterval⟩
  | tick now =>
    simp only [Playback.perform]
    cases hmode : p.mode with
    | stepping =>
      rw [tick_of_stepping hmode]
      exact ⟨rfl, hcursor, hinterval⟩
    | animating started first =>
      rcases Nat.lt_or_ge (p.dueFrame started now first) p.frameCount with hlt | hge
      · rw [tick_of_lt hmode hlt]
        exact ⟨rfl, hlt, hinterval⟩
      · rw [tick_of_le hmode hge]
        exact ⟨rfl, Nat.le_refl _, hinterval⟩
  | stop => exact ⟨rfl, hcursor, hinterval⟩
  | setInterval interval => exact ⟨rfl, hcursor, Nat.le_max_right _ _⟩

theorem Sound.performAll (h : p.Sound frameCount) (ops : List Operation) :
    (p.performAll ops).Sound frameCount := by
  induction ops generalizing p with
  | nil => exact h
  | cons op rest ih => exact ih (h.perform op)

end Playback

end Bitplane
