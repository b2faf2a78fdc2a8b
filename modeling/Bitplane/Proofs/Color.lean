import Bitplane.Color
import Bitplane.Proofs.Text.Blank
import Mathlib.Data.List.Basic

/-! # Texts of colors

A color is spelled by three, six or eight digits behind a mark that may be missing, between
blanks. More is read than that: any number of marks, and a plus sign for the first digit of a
channel. Every text that is read is of this form, and every other one is refused.
-/

namespace Bitplane

namespace Text

variable {c : Char}

def IsHexDigit (c : Char) : Prop :=
  ('0' ≤ c ∧ c ≤ '9') ∨ ('a' ≤ c ∧ c ≤ 'f') ∨ ('A' ≤ c ∧ c ≤ 'F')

instance : Decidable (IsHexDigit c) := inferInstanceAs (Decidable (_ ∨ _))

theorem isSome_hexValue?_iff : (hexValue? c).isSome ↔ IsHexDigit c := by
  unfold hexValue? IsHexDigit
  split_ifs <;> simp [*]

theorem isHexDigit_iff_toNat : IsHexDigit c ↔ (0x30 ≤ c.toNat ∧ c.toNat ≤ 0x39) ∨
    (0x61 ≤ c.toNat ∧ c.toNat ≤ 0x66) ∨ (0x41 ≤ c.toNat ∧ c.toNat ≤ 0x46) := Iff.rfl

theorem IsHexDigit.isBlank (h : IsHexDigit c) : isBlank c = false := by
  rw [isHexDigit_iff_toNat] at h
  simp only [Text.isBlank, List.contains_eq_mem, List.mem_cons, List.not_mem_nil, or_false,
    Bool.or_eq_false_iff, Bool.and_eq_false_iff, decide_eq_false_iff_not]
  omega

end Text

namespace Color

open Text

variable {text : String} {cs digits : List Char} {count : Nat} {color : Color}

/-! ## Digits -/

def IsBare (digits : List Char) : Prop :=
  (digits.length = 3 ∨ digits.length = 6 ∨ digits.length = 8) ∧ ∀ c ∈ digits, IsHexDigit c

/-- Whether two characters are read as a channel: two digits, or a plus sign and a digit. -/
def IsPair (pair : Char × Char) : Prop :=
  (IsHexDigit pair.1 ∨ pair.1 = '+') ∧ IsHexDigit pair.2

inductive Readable : List Char → Prop
  | short {r g b : Char} : IsHexDigit r → IsHexDigit g → IsHexDigit b → Readable [r, g, b]
  | long {pairs : List (Char × Char)} : pairs.length = 3 ∨ pairs.length = 4 →
      (∀ pair ∈ pairs, IsPair pair) → Readable (pairs.flatMap fun (high, low) => [high, low])

theorem isSome_shortChannel?_iff {digit : Char} :
    (shortChannel? digit).isSome ↔ IsHexDigit digit := by
  rw [shortChannel?, Option.isSome_map, isSome_hexValue?_iff]

theorem isSome_channel?_iff {pair : Char × Char} :
    (channel? pair.1 pair.2).isSome ↔ IsPair pair := by
  obtain ⟨high, low⟩ := pair
  rw [IsPair, ← isSome_hexValue?_iff, ← isSome_hexValue?_iff, channel?]
  by_cases hplus : high = '+'
  · cases hexValue? low <;> simp [hplus]
  · cases hexValue? low <;> cases hexValue? high <;> simp [hplus]

theorem readable_of_ofDigits? (h : ofDigits? digits = some color) : Readable digits := by
  have hpair {high low : Char} {n : UInt8} (h : channel? high low = some n) :
      IsPair (high, low) := isSome_channel?_iff.mp (by simp [h])
  have hdigit {digit : Char} {n : UInt8} (h : shortChannel? digit = some n) :
      IsHexDigit digit := isSome_shortChannel?_iff.mp (by simp [h])
  unfold ofDigits? at h
  split at h
  case h_1 =>
    simp only [bind, Option.bind_eq_some_iff] at h
    obtain ⟨_, hr, _, hg, _, hb, -⟩ := h
    exact .short (hdigit hr) (hdigit hg) (hdigit hb)
  case h_2 r r' g g' b b' =>
    simp only [bind, Option.bind_eq_some_iff] at h
    obtain ⟨_, hr, _, hg, _, hb, -⟩ := h
    have hpairs : ∀ pair ∈ [(r, r'), (g, g'), (b, b')], IsPair pair := by
      simp [hpair hr, hpair hg, hpair hb]
    exact .long (.inl rfl) hpairs
  case h_3 r r' g g' b b' a a' =>
    simp only [bind, Option.bind_eq_some_iff] at h
    obtain ⟨_, hr, _, hg, _, hb, _, ha, -⟩ := h
    have hpairs : ∀ pair ∈ [(r, r'), (g, g'), (b, b'), (a, a')], IsPair pair := by
      simp [hpair hr, hpair hg, hpair hb, hpair ha]
    exact .long (.inr rfl) hpairs
  case h_4 => cases h

theorem Readable.exists_ofDigits? (h : Readable digits) :
    ∃ color, ofDigits? digits = some color := by
  cases h with
  | short hr hg hb =>
    obtain ⟨r, hr⟩ := Option.isSome_iff_exists.mp (isSome_shortChannel?_iff.mpr hr)
    obtain ⟨g, hg⟩ := Option.isSome_iff_exists.mp (isSome_shortChannel?_iff.mpr hg)
    obtain ⟨b, hb⟩ := Option.isSome_iff_exists.mp (isSome_shortChannel?_iff.mpr hb)
    exact ⟨solid r g b, by simp [ofDigits?, hr, hg, hb]⟩
  | @long pairs hlength hpairs =>
    have hchannel (pair : Char × Char) (h : pair ∈ pairs) : ∃ n, channel? pair.1 pair.2 = some n :=
      Option.isSome_iff_exists.mp (isSome_channel?_iff.mpr (hpairs pair h))
    rcases hlength with hlength | hlength
    · obtain ⟨p, q, s, rfl⟩ := List.length_eq_three.mp hlength
      obtain ⟨r, hr⟩ := hchannel p (by simp)
      obtain ⟨g, hg⟩ := hchannel q (by simp)
      obtain ⟨b, hb⟩ := hchannel s (by simp)
      exact ⟨solid r g b, by simp [ofDigits?, hr, hg, hb]⟩
    · obtain ⟨p, q, s, u, rfl⟩ := List.length_eq_four.mp hlength
      obtain ⟨r, hr⟩ := hchannel p (by simp)
      obtain ⟨g, hg⟩ := hchannel q (by simp)
      obtain ⟨b, hb⟩ := hchannel s (by simp)
      obtain ⟨a, ha⟩ := hchannel u (by simp)
      exact ⟨⟨r, g, b, a⟩, by simp [ofDigits?, hr, hg, hb, ha]⟩

theorem Readable.of_mem {c : Char} (h : Readable digits) (hc : c ∈ digits) :
    IsHexDigit c ∨ c = '+' := by
  cases h with
  | short hr hg hb =>
    simp only [List.mem_cons, List.not_mem_nil, or_false] at hc
    rcases hc with rfl | rfl | rfl
    · exact .inl hr
    · exact .inl hg
    · exact .inl hb
  | long _ hpairs =>
    obtain ⟨pair, hpair, hc⟩ := List.mem_flatMap.mp hc
    obtain ⟨hhigh, hlow⟩ := hpairs pair hpair
    simp only [List.mem_cons, List.not_mem_nil, or_false] at hc
    rcases hc with rfl | rfl
    · exact hhigh
    · exact .inl hlow

theorem isBare_iff : IsBare digits ↔ Readable digits ∧ '+' ∉ digits := by
  constructor
  · rintro ⟨hlength, hdigits⟩
    refine ⟨?_, fun hplus => absurd (hdigits _ hplus) (by decide)⟩
    have hpair {high low : Char} (hhigh : high ∈ digits) (hlow : low ∈ digits) :
        IsPair (high, low) := ⟨.inl (hdigits high hhigh), hdigits low hlow⟩
    rcases hlength with hlength | hlength | hlength
    · obtain ⟨r, g, b, rfl⟩ := List.length_eq_three.mp hlength
      exact .short (hdigits r (by simp)) (hdigits g (by simp)) (hdigits b (by simp))
    · match digits, hlength with
      | [r, r', g, g', b, b'], _ =>
        have hpairs : ∀ pair ∈ [(r, r'), (g, g'), (b, b')], IsPair pair := by
          simp [hpair]
        exact .long (.inl rfl) hpairs
    · match digits, hlength with
      | [r, r', g, g', b, b', a, a'], _ =>
        have hpairs : ∀ pair ∈ [(r, r'), (g, g'), (b, b'), (a, a')], IsPair pair := by
          simp [hpair]
        exact .long (.inr rfl) hpairs
  · rintro ⟨hread, hplus⟩
    refine ⟨?_, fun c hc => (hread.of_mem hc).resolve_right fun h => hplus (h ▸ hc)⟩
    cases hread with
    | short => exact .inl rfl
    | long hlength =>
      rcases hlength with hlength | hlength
      · obtain ⟨_, _, _, rfl⟩ := List.length_eq_three.mp hlength
        exact .inr (.inl rfl)
      · obtain ⟨_, _, _, _, rfl⟩ := List.length_eq_four.mp hlength
        exact .inr (.inr rfl)

/-! ## Texts -/

/-- Whether a text is this many marks and these digits, between blanks. -/
def Spells (text : String) (count : Nat) (digits : List Char) : Prop :=
  Framed text.toList (List.replicate count '#' ++ digits)

/-- Whether a text is a color as colors are meant to be written: three, six or eight digits,
behind one mark or none. -/
def Documented (text : String) : Prop :=
  ∃ count ≤ 1, ∃ digits, Spells text count digits ∧ IsBare digits

/-- Whether a text is read as a color: behind any number of marks, and a plus sign may stand
for a digit. -/
def Accepted (text : String) : Prop := ∃ count digits, Spells text count digits ∧ Readable digits

theorem Readable.ne_mark {c : Char} (h : Readable digits) (hc : c ∈ digits) : c ≠ '#' := by
  rintro rfl
  exact absurd (h.of_mem hc) (by decide)

theorem Readable.isBlank {c : Char} (h : Readable digits) (hc : c ∈ digits) :
    isBlank c = false := by
  rcases h.of_mem hc with hdigit | rfl
  · exact hdigit.isBlank
  · rfl

theorem ofText_eq_ok_iff : ofText text = .ok color ↔
    ∃ count digits, Spells text count digits ∧ ofDigits? digits = some color := by
  constructor
  · intro h
    have hdigits : ofDigits? ((trim text.toList).dropWhile (· == '#')) = some color := by
      unfold ofText at h
      split at h
      case h_1 heq => rw [heq, Except.ok.inj h]
      case h_2 => cases h
    have hframed := framed_trim text.toList
    generalize trim text.toList = core at hdigits hframed
    have hmarks : core.takeWhile (· == '#') =
        List.replicate (core.takeWhile (· == '#')).length '#' :=
      List.eq_replicate_iff.mpr ⟨rfl, fun c hc => by simpa using List.mem_takeWhile_imp hc⟩
    refine ⟨(core.takeWhile (· == '#')).length, core.dropWhile (· == '#'), ?_, hdigits⟩
    rwa [Spells, ← hmarks, List.takeWhile_append_dropWhile]
  · rintro ⟨count, digits, hspells, hdigits⟩
    have hread := readable_of_ofDigits? hdigits
    have htrim : trim text.toList = List.replicate count '#' ++ digits := by
      refine hspells.trim_eq fun c hc => ?_
      rcases List.mem_append.mp hc with hc | hc
      · rw [List.eq_of_mem_replicate hc]
        rfl
      · exact hread.isBlank hc
    have hdrop : (trim text.toList).dropWhile (· == '#') = digits := by
      rw [htrim, List.dropWhile_append_of_pos fun c hc => by simp [List.eq_of_mem_replicate hc]]
      cases digits with
      | nil => rfl
      | cons d rest =>
        exact List.dropWhile_cons_of_neg (by simp [hread.ne_mark List.mem_cons_self])
    rw [ofText, hdrop, hdigits]

theorem exists_ofText_iff : (∃ color, ofText text = .ok color) ↔ Accepted text := by
  simp only [ofText_eq_ok_iff]
  constructor
  · rintro ⟨color, count, digits, hspells, hdigits⟩
    exact ⟨count, digits, hspells, readable_of_ofDigits? hdigits⟩
  · rintro ⟨count, digits, hspells, hread⟩
    obtain ⟨color, hdigits⟩ := hread.exists_ofDigits?
    exact ⟨color, count, digits, hspells, hdigits⟩

theorem Spells.count_mark (h : Spells text count digits) (hread : Readable digits) :
    text.toList.count '#' = count := by
  obtain ⟨front, back, htext, hfront, hback⟩ := h
  have hnone {cs : List Char} (h : ∀ c ∈ cs, isBlank c) : cs.count '#' = 0 :=
    List.count_eq_zero.mpr fun hc => absurd (h _ hc) (by decide)
  have hdigits : digits.count '#' = 0 :=
    List.count_eq_zero.mpr fun hc => hread.ne_mark hc rfl
  simp only [htext, List.count_append, hnone hfront, hnone hback, hdigits,
    List.count_replicate_self]
  omega

theorem Spells.mem_plus_iff (h : Spells text count digits) :
    '+' ∈ text.toList ↔ '+' ∈ digits := by
  obtain ⟨front, back, htext, hfront, hback⟩ := h
  have hnone {cs : List Char} (h : ∀ c ∈ cs, isBlank c) : '+' ∉ cs :=
    fun hc => absurd (h _ hc) (by decide)
  simp [htext, hnone hfront, hnone hback]

/-- Colors are read as they are meant to be written, but for plus signs and further marks. -/
theorem documented_iff :
    Documented text ↔ Accepted text ∧ '+' ∉ text.toList ∧ text.toList.count '#' ≤ 1 := by
  constructor
  · rintro ⟨count, hcount, digits, hspells, hbare⟩
    obtain ⟨hread, hplus⟩ := isBare_iff.mp hbare
    exact ⟨⟨count, digits, hspells, hread⟩, fun h => hplus (hspells.mem_plus_iff.mp h),
      hspells.count_mark hread ▸ hcount⟩
  · rintro ⟨⟨count, digits, hspells, hread⟩, hplus, hcount⟩
    rw [hspells.count_mark hread] at hcount
    exact ⟨count, hcount, digits, hspells,
      isBare_iff.mpr ⟨hread, fun h => hplus (hspells.mem_plus_iff.mpr h)⟩⟩

/-- A text is read as a color exactly if it is made up of marks, as many as there are, and three,
six or eight digits, where a plus sign may stand for the first of a pair, between blanks. Every
other one is refused with its own text. Without plus signs and with no more than one mark these
are the texts of colors as they are meant to be written. -/
theorem colors_are_read_from_marks_and_digits (text : String) :
    ((∃ color, ofText text = .ok color) ↔ Accepted text) ∧
    (ofText text = .error (.invalidColor (quoted text)) ↔ ¬Accepted text) ∧
    (Documented text ↔ Accepted text ∧ '+' ∉ text.toList ∧ text.toList.count '#' ≤ 1) := by
  refine ⟨exists_ofText_iff, ?refused, documented_iff⟩
  case refused =>
    rw [← exists_ofText_iff]
    constructor
    · rintro hrefused ⟨color, hread⟩
      rw [hrefused] at hread
      cases hread
    · intro hnone
      cases hread : ofDigits? ((trim text.toList).dropWhile (· == '#')) with
      | none => rw [ofText, hread]
      | some color => exact absurd ⟨color, by rw [ofText, hread]⟩ hnone

/-- Plus signs and a second mark make no color, but are read as one. -/
theorem plus_signs_and_second_mark_are_read :
    ofText "+1+2+3" = .ok (solid 1 2 3) ∧ ¬Documented "+1+2+3" ∧
      ofText "##fff" = .ok white ∧ ¬Documented "##fff" := by
  refine ⟨by rfl, fun h => ?plus, by rfl, fun h => ?mark⟩
  case plus => exact absurd (documented_iff.mp h).2.1 (by decide)
  case mark => exact absurd (documented_iff.mp h).2.2 (by decide)

end Color

end Bitplane
