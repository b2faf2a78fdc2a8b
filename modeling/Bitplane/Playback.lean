import Bitplane.Duration
import Bitplane.Notice

/-! # Playback

A playback decides which frame to show. It can be stepped, or it animates: then
a tick tells the time, counted from any origin, and gives the frame that is due.
An animation ends after the last frame and does not start over.
-/

namespace Bitplane

inductive Tick where
  | render (frame : Nat)
  /-- The frame shown last is still due. -/
  | unchanged (frame : Nat)
  | finished
  | idle
  deriving DecidableEq, Repr

inductive PlaybackMode where
  | stepping
  | animating (started : Duration) (first : Nat)
  deriving DecidableEq, Repr

structure Playback where
  frameCount : Nat
  /-- The frame that the next step hands out. -/
  cursor : Nat
  /-- The time for which a frame is shown. -/
  interval : Duration
  mode : PlaybackMode
  /-- The frame handed out last. -/
  position : Option Nat
  deriving DecidableEq, Repr

namespace Playback

/-- The greatest frame number that a playback tells apart. -/
def maxIndex : Nat := 0xFFFFFFFFFFFFFFFF

def defaultInterval : Duration := .ofMillis 33

def ofFrames (frameCount : Nat) : Playback :=
  ⟨frameCount, 0, defaultInterval, .stepping, none⟩

/-- A playback with another interval, raised to one millisecond if it is shorter. -/
def withInterval (p : Playback) (interval : Duration) : Playback :=
  { p with interval := ⟨max interval.nanos (Duration.ofMillis 1).nanos⟩ }

variable (p : Playback)

def isAnimating : Bool :=
  match p.mode with
  | .animating .. => true
  | .stepping => false

def isFinished : Bool := p.frameCount ≤ p.cursor

/-- Moves the cursor, at most to the end. -/
def seek (index : Nat) : Playback := { p with cursor := min index p.frameCount }

/-- Goes back to the first frame and stops animating. -/
def restart : Playback := { p with cursor := 0, position := none, mode := .stepping }

def step : Option Nat × Playback :=
  if p.frameCount ≤ p.cursor then (none, p)
  else (some p.cursor, { p with cursor := p.cursor + 1, position := some p.cursor })

def animate (now : Duration) : Playback := { p with mode := .animating now p.cursor }

def animateNotice : Notice :=
  ⟨.debug, .playback, s!"animating from frame {p.cursor} at {p.interval.text} per frame"⟩

/-- Stops animating behind the frame shown last. -/
def stop : Playback := { p with mode := .stepping }

/-- The frame due at `now` in an animation from `first` since `started`. The frames
gone by are counted in 64 bits and the sum stays at the greatest number. -/
def dueFrame (started now : Duration) (first : Nat) : Nat :=
  let gone := (now.nanos - started.nanos) / p.interval.nanos % 0x10000000000000000
  min (first + gone) maxIndex

/-- Hands out the frame due at `now`. -/
def tick (now : Duration) : Tick × Playback :=
  match p.mode with
  | .stepping => (.idle, p)
  | .animating started first =>
    let due := p.dueFrame started now first
    if p.frameCount ≤ due then
      (.finished, { p with mode := .stepping, cursor := p.frameCount })
    else if p.position = some due then (.unchanged due, { p with cursor := due + 1 })
    else (.render due, { p with cursor := due + 1, position := some due })

/-- What `p.tick now` has to say: that the animation is over. -/
def tickNotice? (now : Duration) : Option Notice :=
  match p.mode, (p.tick now).1 with
  | .animating _ first, .finished =>
    some ⟨.debug, .playback, s!"animation finished after {p.frameCount - first} frames"⟩
  | _, _ => none

/-- Ticks at `now` and every `poll` after it, behind those in `found`, which are kept
last first, until the animation is over; and the time of the last tick. -/
def ticksFrom (poll : Duration) : (fuel : Nat) → (now : Duration) → List Tick → Playback →
    List Tick × Duration
  | 0, now, found, _ => (found.reverse, now)
  | fuel + 1, now, found, p =>
    match p.tick now with
    | (.finished, _) | (.idle, _) => (found.reverse, now)
    | (tick, p) => ticksFrom poll fuel ⟨now.nanos + poll.nanos⟩ (tick :: found) p

def ticks (poll : Duration) : List Tick × Duration :=
  ticksFrom poll (p.frameCount * p.interval.nanos / poll.nanos + 2) ⟨0⟩ [] (p.animate ⟨0⟩)

end Playback

end Bitplane
