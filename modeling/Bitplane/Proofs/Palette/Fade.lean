import Bitplane.Proofs.Fill.Machine
import Bitplane.Proofs.Palette.Size

/-! # Fades

A fade leads every channel of every color from the one palette to the other. Rounding toward
zero makes none of them turn round or overshoot, whichever way it goes, so that a byte holds
it all the way. The palettes at both ends are those that are faded, but for black colors
that fill up the shorter one.
-/

namespace Bitplane

namespace Color

/-! ## One channel -/

section Channels

variable {step later total : Nat} {a b : UInt8}

def moved (step total : Nat) (a b : UInt8) : Int :=
  (((b.toNat : Int) - a.toNat) * step).tdiv total

theorem moved_zero (total : Nat) (a b : UInt8) : moved 0 total a b = 0 := by
  simp [moved]

theorem moved_self (step total : Nat) (a : UInt8) : moved step total a a = 0 := by
  simp [moved]

theorem moved_total (htotal : 0 < total) (a b : UInt8) :
    moved total total a b = b.toNat - a.toNat :=
  Int.mul_tdiv_cancel _ (by omega)

theorem moved_le_moved (htotal : 0 < total)
    (h : ((b.toNat : Int) - a.toNat) * step ≤ (b.toNat - a.toNat) * later) :
    moved step total a b ≤ moved later total a b :=
  Int.tdiv_le_tdiv (by omega) h

theorem moved_mono (htotal : 0 < total) (hab : a.toNat ≤ b.toNat) (hlater : step ≤ later) :
    moved step total a b ≤ moved later total a b :=
  moved_le_moved htotal (Int.mul_le_mul_of_nonneg_left (by omega) (by omega))

theorem moved_anti (htotal : 0 < total) (hba : b.toNat ≤ a.toNat) (hlater : step ≤ later) :
    moved later total a b ≤ moved step total a b :=
  moved_le_moved htotal (Int.mul_le_mul_of_nonpos_left (by omega) (by omega))

theorem moved_within (htotal : 0 < total) (hstep : step ≤ total) (a b : UInt8) :
    min (a.toNat : Int) b.toNat ≤ a.toNat + moved step total a b ∧
      a.toNat + moved step total a b ≤ max (a.toNat : Int) b.toNat := by
  -- what has been gone at the first and at the last step bounds what lies between
  have hstart := moved_zero total a b
  have hstop := moved_total htotal a b
  rcases Nat.le_total a.toNat b.toNat with hab | hba
  · have hfirst := moved_mono htotal hab (Nat.zero_le step)
    have hlast := moved_mono htotal hab hstep
    omega
  · have hfirst := moved_anti htotal hba (Nat.zero_le step)
    have hlast := moved_anti htotal hba hstep
    omega

theorem toNat_fadeChannel (htotal : 0 < total) (hstep : step ≤ total) (a b : UInt8) :
    ((fadeChannel step total a b).toNat : Int) = a.toNat + moved step total a b := by
  have hwithin := moved_within htotal hstep a b
  have ha := a.toNat_lt
  have hb := b.toNat_lt
  rw [fadeChannel, ← moved, UInt8.toNat_ofNat']
  omega

theorem fadeChannel_le_of_moved_le (htotal : 0 < total) (hstep : step ≤ total)
    (hlater : later ≤ total) (h : moved step total a b ≤ moved later total a b) :
    fadeChannel step total a b ≤ fadeChannel later total a b := by
  have hplace := toNat_fadeChannel htotal hstep a b
  have hnext := toNat_fadeChannel htotal hlater a b
  exact UInt8.le_iff_toNat_le.mpr (by omega)

theorem fadeChannel_of_moved (h : moved step total a b = 0) :
    fadeChannel step total a b = a := by
  have ha := a.toNat_lt
  rw [fadeChannel, ← moved, h]
  refine UInt8.toNat_inj.mp ?_
  rw [UInt8.toNat_ofNat']
  omega

theorem fadeChannel_total (htotal : 0 < total) (a b : UInt8) :
    fadeChannel total total a b = b := by
  have hplace := toNat_fadeChannel htotal le_rfl a b
  rw [moved_total htotal] at hplace
  exact UInt8.toNat_inj.mp (by omega)

/-- How a channel approaches `b` from `a` in `total` steps: it gets there, it never turns round
and it stays between the two. -/
structure Approaches (total : Nat) (a b : UInt8) (place : Nat → UInt8) : Prop where
  start : place 0 = a
  stop : place total = b
  rises : a ≤ b → ∀ step later, step ≤ later → later ≤ total → place step ≤ place later
  falls : b ≤ a → ∀ step later, step ≤ later → later ≤ total → place later ≤ place step
  between : ∀ step ≤ total, min a.toNat b.toNat ≤ (place step).toNat ∧
    (place step).toNat ≤ max a.toNat b.toNat

theorem approaches_fadeChannel (htotal : 0 < total) (a b : UInt8) :
    Approaches total a b fun step => fadeChannel step total a b := by
  refine ⟨fadeChannel_of_moved (moved_zero total a b), fadeChannel_total htotal a b, ?rises,
    ?falls, ?between⟩
  case rises =>
    intro hab step later hlater hle
    have hmono := moved_mono htotal (UInt8.le_iff_toNat_le.mp hab) hlater
    exact fadeChannel_le_of_moved_le htotal (hlater.trans hle) hle hmono
  case falls =>
    intro hba step later hlater hle
    have hanti := moved_anti htotal (UInt8.le_iff_toNat_le.mp hba) hlater
    exact fadeChannel_le_of_moved_le htotal hle (hlater.trans hle) hanti
  case between =>
    intro step hstep
    have hwithin := moved_within htotal hstep a b
    have hplace := toNat_fadeChannel htotal hstep a b
    omega

end Channels

/-! ## One color -/

section Colors

variable {total : Nat}

def channelsOf : List (Color → UInt8) := [Color.r, Color.g, Color.b, Color.a]

theorem fade_zero (total : Nat) (a b : Color) : fade 0 total a b = a := if_pos rfl

theorem fade_channel {channel : Color → UInt8} (h : channel ∈ channelsOf) (step total : Nat)
    (a b : Color) : channel (fade step total a b) =
      fadeChannel step total (channel a) (channel b) := by
  simp only [channelsOf, List.mem_cons, List.not_mem_nil, or_false] at h
  by_cases hstep : step = 0
  · rw [hstep, fade_zero, fadeChannel_of_moved (moved_zero total (channel a) (channel b))]
  · rcases h with rfl | rfl | rfl | rfl <;> rw [fade, if_neg hstep]

theorem eq_of_channels {c d : Color} (h : ∀ channel ∈ channelsOf, channel c = channel d) :
    c = d := by
  simp only [channelsOf, List.forall_mem_cons] at h
  obtain ⟨hr, hg, hb, ha, -⟩ := h
  cases c
  cases d
  simp_all

theorem fade_self (step total : Nat) (c : Color) : fade step total c c = c :=
  eq_of_channels fun channel hchannel => by
    rw [fade_channel hchannel, fadeChannel_of_moved (moved_self ..)]

theorem fade_total (htotal : 0 < total) (a b : Color) : fade total total a b = b :=
  eq_of_channels fun channel hchannel => by
    rw [fade_channel hchannel, fadeChannel_total htotal]

end Colors

end Color

/-! ## Fading on a machine -/

namespace Machine

/-- A channel on its way in words of 64 bits. Without steps there is no quotient, and nothing is
cut off that a byte does not hold. -/
def fadeChannel (step total : Nat) (a b : UInt8) : Option UInt8 := do
  let difference ← word 63 ((b.toNat : Int) - a.toNat)
  let way ← word 63 (difference * step)
  if total = 0 then none
  else
    let place ← word 63 (a.toNat + way.tdiv total)
    if 0 ≤ place ∧ place ≤ 255 then return UInt8.ofNat place.toNat else none

def fadeColor (step total : Nat) (a b : Color) : Option Color :=
  if step = 0 then return a
  else
    return ⟨← fadeChannel step total a.r b.r, ← fadeChannel step total a.g b.g,
      ← fadeChannel step total a.b b.b, ← fadeChannel step total a.a b.a⟩

def fade (a b : Palette) (step total : Nat) : Option (Except PaletteFault Palette) :=
  if total < step then return .error (.blendStep step total)
  else do
    let colors ← (List.range (max a.size b.size)).mapM fun i =>
      fadeColor step total (a.get i) (b.get i)
    return .ok ⟨colors⟩

variable {step total : Nat}

theorem fadeChannel_eq (htotal : 0 < total) (hstep : step ≤ total) (hword : total < 2 ^ 32)
    (a b : UInt8) : fadeChannel step total a b = some (Color.fadeChannel step total a b) := by
  have ha := a.toNat_lt
  have hb := b.toNat_lt
  have hchannel := (Color.fadeChannel step total a b).toNat_lt
  have hdifference : Fits 63 ((b.toNat : Int) - a.toNat) := ⟨by omega, by omega⟩
  have hway : Fits 63 (((b.toNat : Int) - a.toNat) * step) := by
    have := mul_within (a := (b.toNat : Int) - a.toNat) (b := step) (s := 255) (t := 2 ^ 32)
      (by omega) (by omega)
    exact ⟨by omega, by omega⟩
  have hplace : Fits 63 (Color.fadeChannel step total a b).toNat := ⟨by omega, by omega⟩
  simp only [fadeChannel, word_eq hdifference, word_eq hway, Option.bind_eq_bind,
    Option.bind_some, if_neg htotal.ne']
  rw [← Color.moved, ← Color.toNat_fadeChannel htotal hstep, word_eq hplace, Option.bind_some,
    if_pos ⟨by omega, by omega⟩, Int.toNat_natCast, UInt8.ofNat_toNat]
  rfl

theorem fadeColor_eq (hstep : step ≤ total) (hword : total < 2 ^ 32) (a b : Color) :
    fadeColor step total a b = some (Color.fade step total a b) := by
  unfold fadeColor Color.fade
  split
  case isTrue => rfl
  case isFalse hmoves =>
    have htotal : 0 < total := by omega
    simp only [fadeChannel_eq htotal hstep hword]
    rfl

theorem fade_eq (hword : total < 2 ^ 32) (a b : Palette) (step : Nat) :
    fade a b step total = some (Palette.fade a b step total) := by
  unfold fade Palette.fade
  split
  case isTrue => rfl
  case isFalse hstep =>
    rw [mapM_eq_some_map fun i _ => fadeColor_eq (Nat.not_lt.mp hstep) hword (a.get i) (b.get i)]
    rfl

end Machine

/-! ## Palettes -/

namespace Palette

variable {p q : Palette} {total n i : Nat}

theorem get_of_size_le (h : p.size ≤ i) : p.get i = .black :=
  List.getD_eq_default _ _ h

theorem get_faded (a b : Palette) (step total i : Nat) :
    (faded a b step total).get i = Color.fade step total (a.get i) (b.get i) := by
  by_cases hi : i < max a.size b.size
  · simp [faded, get, hi]
  · have hsize := size_faded a b step total
    rw [get_of_size_le (by omega), get_of_size_le (by omega), get_of_size_le (by omega),
      Color.fade_self]

/-- A fade fails exactly behind its last step. Up to there it has reached a palette of the larger
size, in which every channel of every color, black where there is none, approaches the other
one: it gets there at the last step, never turns round and stays between the two. In words of
64 bits, with fewer than 2^32 steps, there is always a quotient and a byte holds every channel
without cutting it off, so that the fade is the same. -/
theorem fades_approach_without_overshoot (a b : Palette) (total : Nat) :
    (∀ step, fade a b step total =
      if step ≤ total then .ok (faded a b step total) else .error (.blendStep step total)) ∧
    (∀ step, (faded a b step total).size = max a.size b.size) ∧
    (0 < total → ∀ i, ∀ channel ∈ Color.channelsOf,
      Color.Approaches total (channel (a.get i)) (channel (b.get i)) fun step =>
        channel ((faded a b step total).get i)) ∧
    (total < 2 ^ 32 → ∀ step, Machine.fade a b step total = some (fade a b step total)) := by
  refine ⟨fun step => ?answer, fun step => size_faded a b step total,
    fun htotal i channel hchannel => ?approaches, fun hword => Machine.fade_eq hword a b⟩
  case answer =>
    split
    case isTrue hle => exact fade_of_le hle
    case isFalse hlt => exact fade_of_lt (Nat.not_le.mp hlt)
  case approaches =>
    simp only [get_faded, Color.fade_channel hchannel]
    exact Color.approaches_fadeChannel htotal (channel (a.get i)) (channel (b.get i))

/-- A color fades in three steps, and another one to the black behind its palette. -/
theorem fade_approaches_in_three_steps :
    let a : Palette := ⟨[.solid 200 0 10, ⟨255, 1, 128, 7⟩]⟩
    let b : Palette := ⟨[.solid 0 200 11]⟩
    let third : Palette := ⟨[.solid 134 66 10, ⟨170, 1, 86, 89⟩]⟩
    0 < 3 ∧ Color.r ∈ Color.channelsOf ∧ fade a b 1 3 = .ok third ∧
      Color.Approaches 3 255 0 (fun step => ((faded a b step 3).get 1).r) ∧
      3 < 2 ^ 32 ∧ Machine.fade a b 1 3 = some (.ok third) := by
  intro a b third
  obtain ⟨-, -, happroaches, hmachine⟩ := fades_approach_without_overshoot a b 3
  have hchannel : Color.r ∈ Color.channelsOf := List.mem_cons_self
  have hthird : fade a b 1 3 = .ok third := by cbv
  exact ⟨by decide, hchannel, hthird, happroaches (by decide) 1 Color.r hchannel, by decide,
    (hmachine (by decide) 1).trans (congrArg some hthird)⟩

/-! ## Ends -/

theorem ext_get (hsize : p.size = q.size) (hget : ∀ i, p.get i = q.get i) : p = q := by
  have hcolors : p.colors = q.colors := by
    refine List.ext_getElem hsize fun i hp hq => ?_
    simpa [get, hp, hq] using hget i
  cases p
  cases q
  exact congrArg mk hcolors

def padded (p : Palette) (n : Nat) : Palette := ⟨p.colors ++ List.replicate (n - p.size) .black⟩

theorem size_padded (p : Palette) (n : Nat) : (p.padded n).size = max p.size n := by
  simp only [padded, size, List.length_append, List.length_replicate]
  omega

theorem get_padded (p : Palette) (n i : Nat) : (p.padded n).get i = p.get i := by
  rcases Nat.lt_or_ge i p.size with hlt | hge
  · exact List.getD_append _ _ _ _ hlt
  · rw [get_of_size_le hge, padded, get, List.getD_append_right _ _ _ _ hge,
      List.getD_eq_getElem?_getD, List.getElem?_getD_replicate_default_eq]

theorem padded_eq_self_iff : p.padded n = p ↔ n ≤ p.size := by
  have hsize := size_padded p n
  constructor
  · intro h
    rw [h] at hsize
    omega
  · intro h
    exact ext_get (by omega) (get_padded p n)

theorem faded_zero (a b : Palette) (total : Nat) : faded a b 0 total = a.padded b.size := by
  refine ext_get ?_ fun i => ?_
  · rw [size_faded, size_padded]
  · rw [get_faded, get_padded, Color.fade_zero]

theorem faded_total (htotal : 0 < total) (a b : Palette) :
    faded a b total total = b.padded a.size := by
  refine ext_get ?_ fun i => ?_
  · rw [size_faded, size_padded, Nat.max_comm]
  · rw [get_faded, get_padded, Color.fade_total htotal]

/-- A fade begins in the one palette and ends in the other, each with black colors up to the
size of the other. Color by color these are the palettes themselves, but they are the same
palettes only if they are not the smaller ones. -/
theorem fades_end_in_padded_palettes (a b : Palette) {total : Nat} (htotal : 0 < total) :
    fade a b 0 total = .ok (a.padded b.size) ∧ fade a b total total = .ok (b.padded a.size) ∧
    (∀ i, (a.padded b.size).get i = a.get i ∧ (b.padded a.size).get i = b.get i) ∧
    (fade a b 0 total = .ok a ↔ b.size ≤ a.size) ∧
    (fade a b total total = .ok b ↔ a.size ≤ b.size) := by
  have hstart : fade a b 0 total = .ok (a.padded b.size) := by
    rw [fade_of_le (Nat.zero_le total), faded_zero]
  have hstop : fade a b total total = .ok (b.padded a.size) := by
    rw [fade_of_le le_rfl, faded_total htotal]
  refine ⟨hstart, hstop, fun i => ⟨get_padded a _ i, get_padded b _ i⟩, ?_, ?_⟩
  · rw [hstart, Except.ok.injEq, padded_eq_self_iff]
  · rw [hstop, Except.ok.injEq, padded_eq_self_iff]

/-- Faded to one color, two colors end in that color and black. -/
theorem fade_to_one_color_ends_in_two :
    let a : Palette := ⟨[.solid 1 2 3, .white]⟩
    let b : Palette := ⟨[.white]⟩
    0 < 5 ∧ fade a b 0 5 = .ok a ∧ fade a b 5 5 = .ok ⟨[.white, .black]⟩ := by
  intro a b
  obtain ⟨-, hstop, -, hstart, -⟩ := fades_end_in_padded_palettes a b (show 0 < 5 by decide)
  exact ⟨by decide, hstart.mpr (by decide), hstop⟩

/-- A palette is not returned unchanged by a fade that has not yet begun, nor by one that has
come to its end, if the other one is larger. -/
theorem ends_of_fades_are_not_the_smaller_palettes :
    let small : Palette := ⟨[.white]⟩
    let large : Palette := ⟨[.white, .black]⟩
    fade small large 0 1 = .ok large ∧ fade large small 1 1 = .ok large ∧ small ≠ large := by
  intro small large
  exact ⟨by cbv, by cbv, by decide⟩

end Palette

end Bitplane
