import Bitplane.Proofs.Palette.Document

/-! # Sizes of palettes

Every way to make a palette keeps it within sixteen colors, but for one: a document may list
any number. Setting a color and fading make no palette larger than sixteen colors or the
largest one that they are given.
-/

namespace Bitplane.Palette

variable {p q a b : Palette} {most step total : Nat}

theorem ofColors_eq_ok_iff {colors : List Color} :
    ofColors colors = .ok p ↔ colors.length ≤ maxColors ∧ p = ⟨colors⟩ := by
  unfold ofColors
  split
  case isTrue h => exact iff_of_false nofun fun hle => absurd h (Nat.not_lt.mpr hle.1)
  case isFalse h =>
    constructor
    · rintro ⟨⟩
      exact ⟨Nat.not_lt.mp h, rfl⟩
    · rintro ⟨-, rfl⟩
      rfl

theorem size_of_set {index : UInt8} {color : Color} (h : p.set index color = .ok q) :
    index.toNat < maxColors ∧ q.size = max p.size (index.toNat + 1) := by
  simp only [set] at h
  split at h
  case isTrue => cases h
  case isFalse hindex =>
    cases h
    refine ⟨Nat.not_le.mp hindex, ?_⟩
    simp only [size, List.length_set, List.length_append, List.length_replicate]
    omega

/-- The palette that a fade has reached, with as many colors as the larger one at its ends. -/
def faded (a b : Palette) (step total : Nat) : Palette :=
  ⟨(List.range (max a.size b.size)).map fun i => Color.fade step total (a.get i) (b.get i)⟩

theorem size_faded (a b : Palette) (step total : Nat) :
    (faded a b step total).size = max a.size b.size := by
  simp [faded, size]

theorem fade_of_le (h : step ≤ total) : fade a b step total = .ok (faded a b step total) :=
  if_neg (Nat.not_lt.mpr h)

theorem fade_of_lt (h : total < step) : fade a b step total = .error (.blendStep step total) :=
  if_pos h

theorem size_of_fade (h : fade a b step total = .ok p) : p.size = max a.size b.size := by
  rcases Nat.lt_or_ge total step with hlt | hle
  · rw [fade_of_lt hlt] at h
    cases h
  · rw [fade_of_le hle] at h
    cases h
    exact size_faded a b step total

/-- The palettes that can be made from each other and from documents, none of which lists more
than `most` colors. -/
inductive Obtainable (most : Nat) : Palette → Prop
  | dark : Obtainable most dark
  | layered : Obtainable most layered
  | monochrome : Obtainable most monochrome
  | default : Obtainable most default
  | ofColors {colors : List Color} {p : Palette} :
    ofColors colors = .ok p → Obtainable most p
  | ofJson {data : Bytes} {p : Palette} :
    ofJson data = .ok p → p.size ≤ most → Obtainable most p
  | set {p q : Palette} {index : UInt8} {color : Color} :
    Obtainable most p → p.set index color = .ok q → Obtainable most q
  | fade {a b p : Palette} {step total : Nat} :
    Obtainable most a → Obtainable most b → fade a b step total = .ok p → Obtainable most p

theorem Obtainable.size_le (h : Obtainable most p) : p.size ≤ max maxColors most := by
  induction h with
  | dark => exact Nat.le_max_left ..
  | layered => exact Nat.le_max_left ..
  | monochrome => exact Nat.le_max_left ..
  | default => exact Nat.le_max_left ..
  | ofColors h =>
    obtain ⟨hle, rfl⟩ := ofColors_eq_ok_iff.mp h
    exact Nat.le_trans hle (Nat.le_max_left ..)
  | ofJson _ hle => exact Nat.le_trans hle (Nat.le_max_right ..)
  | set _ h hp =>
    obtain ⟨hindex, hsize⟩ := size_of_set h
    omega
  | fade _ _ h ha hb =>
    rw [size_of_fade h]
    exact Nat.max_le.mpr ⟨ha, hb⟩

theorem obtainable_of_size_le (h : p.size ≤ max maxColors most) : Obtainable most p := by
  by_cases hfew : p.size ≤ maxColors
  · exact .ofColors (ofColors_eq_ok_iff.mpr ⟨hfew, rfl⟩)
  · exact .ofJson p.ofJson_json (by omega)

/-- The palettes that can be made are those of no more than sixteen colors, or of no more than
a document lists: whatever else is done, and in any order, none grows past both. -/
theorem obtainable_iff_size_le (most : Nat) (p : Palette) :
    Obtainable most p ↔ p.size ≤ max maxColors most :=
  ⟨Obtainable.size_le, obtainable_of_size_le⟩

/-- A document with one color too many makes a palette, which fades make others of. -/
theorem seventeen_colors_are_obtainable :
    let p : Palette := ⟨List.replicate 17 .black⟩
    ofJson (Text.toBytes p.json) = .ok p ∧ fade p dark 0 1 = .ok p ∧ Obtainable 17 p ∧
      ¬p.size ≤ maxColors := by
  intro p
  exact ⟨p.ofJson_json, by rfl, .ofJson p.ofJson_json (by decide), by decide⟩

end Bitplane.Palette
