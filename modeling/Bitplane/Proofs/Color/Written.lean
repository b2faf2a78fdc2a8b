import Bitplane.Proofs.Color
import Mathlib.Data.List.Forall2

/-! # Colors read back

A color is written with two digits for each channel, in either case, and an opaque color may
leave out the last two. However it is written, it is read back. Three digits stand for
the opaque color in which each of them is written twice.
-/

namespace Bitplane

namespace Text

variable {c : Char} {n : Nat}

/-- Whether a character is a digit in small letters, or its capital. -/
def InEitherCase (c digit : Char) : Prop := c = digit ∨ c = capital digit

instance (c digit : Char) : Decidable (InEitherCase c digit) := inferInstanceAs (Decidable (_ ∨ _))

theorem hexValue?_eq_some_iff :
    hexValue? c = some n ↔ n < 16 ∧ InEitherCase c (Nat.digitChar n) := by
  constructor
  · intro h
    have hdigit : IsHexDigit c := isSome_hexValue?_iff.mp (by simp [h])
    rw [isHexDigit_iff_toNat] at hdigit
    -- all digits are among the first characters
    have hfirst : ∀ k < 103, ∀ n ∈ hexValue? (Char.ofNat k),
        n < 16 ∧ InEitherCase (Char.ofNat k) (Nat.digitChar n) := by decide
    rw [← Char.ofNat_toNat c] at h ⊢
    exact hfirst c.toNat (by omega) n h
  · have hwritten : ∀ n < 16, hexValue? (Nat.digitChar n) = some n ∧
        hexValue? (capital (Nat.digitChar n)) = some n := by decide
    rintro ⟨hn, rfl | rfl⟩
    · exact (hwritten n hn).1
    · exact (hwritten n hn).2

theorem byteDigits_eq (byte : UInt8) :
    byteDigits byte = [Nat.digitChar (byte.toNat / 16), Nat.digitChar (byte.toNat % 16)] := by
  have hbyte := byte.toNat_lt
  rw [byteDigits, Nat.toDigits_eq_if (by decide)]
  split
  case isTrue hlt =>
    rw [Nat.div_eq_of_lt hlt, Nat.mod_eq_of_lt hlt]
    rfl
  case isFalse =>
    rw [Nat.toDigits_of_lt_base (by omega)]
    rfl

end Text

namespace Color

open Text

variable {digits : List Char} {bytes : List UInt8} {byte : UInt8} {color : Color}

theorem channel?_of_hexValue? {high low : Char} {m n : Nat} (hhigh : hexValue? high = some m)
    (hlow : hexValue? low = some n) : channel? high low = some (UInt8.ofNat (m * 16 + n)) := by
  have hplus : high ≠ '+' := by
    rintro rfl
    cases hhigh
  simp only [channel?, hhigh, hlow, hplus, if_false, Option.bind_eq_bind, Option.bind_some]
  rfl

/-- Whether these are the digits of bytes, each in either case. -/
def Spelled (digits : List Char) (bytes : List UInt8) : Prop :=
  List.Forall₂ InEitherCase digits (bytes.flatMap byteDigits)

theorem spelled_nil_iff : Spelled digits [] ↔ digits = [] := List.forall₂_nil_right_iff

theorem exists_of_spelled_cons (h : Spelled digits (byte :: bytes)) :
    ∃ high low rest, digits = high :: low :: rest ∧ channel? high low = some byte ∧
      Spelled rest bytes := by
  rw [Spelled, List.flatMap_cons, byteDigits_eq] at h
  obtain ⟨high, _, hhigh, hbehind, rfl⟩ := List.forall₂_cons_right_iff.mp h
  obtain ⟨low, rest, hlow, hrest, rfl⟩ := List.forall₂_cons_right_iff.mp hbehind
  have hbyte := byte.toNat_lt
  have hhigh : hexValue? high = some (byte.toNat / 16) :=
    hexValue?_eq_some_iff.mpr ⟨by omega, hhigh⟩
  have hlow : hexValue? low = some (byte.toNat % 16) :=
    hexValue?_eq_some_iff.mpr ⟨by omega, hlow⟩
  refine ⟨high, low, rest, rfl, ?_, hrest⟩
  rw [channel?_of_hexValue? hhigh hlow, Nat.div_add_mod', UInt8.ofNat_toNat]

/-- The ways to write a color in full: with all of its channels, or without the last one if
that is 255. -/
def Writes (digits : List Char) (color : Color) : Prop :=
  Spelled digits color.channels ∨ color.a = 255 ∧ Spelled digits [color.r, color.g, color.b]

theorem Writes.ofDigits?_eq (h : Writes digits color) : ofDigits? digits = some color := by
  rcases h with h | ⟨halpha, h⟩
  · obtain ⟨_, _, _, rfl, hr, h⟩ := exists_of_spelled_cons h
    obtain ⟨_, _, _, rfl, hg, h⟩ := exists_of_spelled_cons h
    obtain ⟨_, _, _, rfl, hb, h⟩ := exists_of_spelled_cons h
    obtain ⟨_, _, _, rfl, ha, h⟩ := exists_of_spelled_cons h
    obtain rfl := spelled_nil_iff.mp h
    simp [ofDigits?, hr, hg, hb, ha]
  · obtain ⟨_, _, _, rfl, hr, h⟩ := exists_of_spelled_cons h
    obtain ⟨_, _, _, rfl, hg, h⟩ := exists_of_spelled_cons h
    obtain ⟨_, _, _, rfl, hb, h⟩ := exists_of_spelled_cons h
    obtain rfl := spelled_nil_iff.mp h
    simp [ofDigits?, solid, hr, hg, hb, ← halpha]

theorem exists_shortChannel? {digit : Char} (h : IsHexDigit digit) :
    ∃ n < 16, InEitherCase digit (Nat.digitChar n) ∧
      shortChannel? digit = some (UInt8.ofNat (17 * n)) := by
  obtain ⟨n, hn⟩ := Option.isSome_iff_exists.mp (isSome_hexValue?_iff.mpr h)
  obtain ⟨hlt, hcase⟩ := hexValue?_eq_some_iff.mp hn
  exact ⟨n, hlt, hcase, by rw [shortChannel?, hn, Option.map_some, Nat.mul_comm]⟩

theorem exists_ofDigits?_short (hbare : IsBare digits) (hlength : digits.length = 3) :
    ∃ m < 16, ∃ n < 16, ∃ k < 16,
      List.Forall₂ InEitherCase digits ([m, n, k].map Nat.digitChar) ∧
      ofDigits? digits =
        some (solid (UInt8.ofNat (17 * m)) (UInt8.ofNat (17 * n)) (UInt8.ofNat (17 * k))) := by
  obtain ⟨r, g, b, rfl⟩ := List.length_eq_three.mp hlength
  obtain ⟨m, hm, hr, hred⟩ := exists_shortChannel? (hbare.2 r (by simp))
  obtain ⟨n, hn, hg, hgreen⟩ := exists_shortChannel? (hbare.2 g (by simp))
  obtain ⟨k, hk, hb, hblue⟩ := exists_shortChannel? (hbare.2 b (by simp))
  refine ⟨m, hm, n, hn, k, hk, .cons hr (.cons hg (.cons hb .nil)), ?_⟩
  simp [ofDigits?, hred, hgreen, hblue]

theorem spelled_flatMap_byteDigits (bytes : List UInt8) :
    Spelled (bytes.flatMap byteDigits) bytes :=
  List.forall₂_same.mpr fun _ _ => .inl rfl

theorem exists_writes_text (color : Color) :
    ∃ digits, Spells color.text 1 digits ∧ Writes digits color := by
  have hspells (shown : List UInt8) : Spells ("#" ++ String.ofList (shown.flatMap byteDigits)) 1
      (shown.flatMap byteDigits) :=
    ⟨[], [], by simp, nofun, nofun⟩
  rw [text]
  split
  case isTrue halpha => exact ⟨_, hspells _, .inr ⟨halpha, spelled_flatMap_byteDigits _⟩⟩
  case isFalse => exact ⟨_, hspells _, .inl (spelled_flatMap_byteDigits _)⟩

/-- However a color is written, with digits in either case, behind a mark or none and between
any blanks, and without its last channel if that is 255, it is read from there. Three digits
are read as the opaque color whose channels are 17 times each of them. The text of a color,
one that has been read or any other, is read back as the color. -/
theorem written_colors_are_read_back :
    (∀ text, ∀ count ≤ 1, ∀ digits color, Spells text count digits → Writes digits color →
      ofText text = .ok color) ∧
    (∀ text, ∀ count ≤ 1, ∀ digits, Spells text count digits → IsBare digits →
      digits.length = 3 → ∃ m < 16, ∃ n < 16, ∃ k < 16,
        List.Forall₂ InEitherCase digits ([m, n, k].map Nat.digitChar) ∧
        ofText text =
          .ok (solid (UInt8.ofNat (17 * m)) (UInt8.ofNat (17 * n)) (UInt8.ofNat (17 * k)))) ∧
    ∀ color, ofText color.text = .ok color := by
  refine ⟨?full, ?short, ?printed⟩
  case full =>
    intro text count _ digits color hspells hwrites
    exact ofText_eq_ok_iff.mpr ⟨count, digits, hspells, hwrites.ofDigits?_eq⟩
  case short =>
    intro text count _ digits hspells hbare hlength
    obtain ⟨m, hm, n, hn, k, hk, hcases, hdigits⟩ := exists_ofDigits?_short hbare hlength
    exact ⟨m, hm, n, hn, k, hk, hcases,
      ofText_eq_ok_iff.mpr ⟨count, digits, hspells, hdigits⟩⟩
  case printed =>
    intro color
    obtain ⟨digits, hspells, hwrites⟩ := exists_writes_text color
    exact ofText_eq_ok_iff.mpr ⟨1, digits, hspells, hwrites.ofDigits?_eq⟩

/-- An opaque color without its last channel, in both cases and between blanks, and three digits
without a mark. -/
theorem orange_and_three_digits_are_read_back :
    let orange := ['f', 'F', '8', '0', '0', '0']
    let short := ['0', 'a', 'F']
    Spells "\t#fF8000 " 1 orange ∧ Writes orange (solid 255 128 0) ∧
      ofText "\t#fF8000 " = .ok (solid 255 128 0) ∧ Spells "0aF" 0 short ∧ IsBare short ∧
      short.length = 3 ∧ ofText "0aF" = .ok (solid 0 170 255) := by
  intro orange short
  have hspells : Spells "\t#fF8000 " 1 orange :=
    ⟨['\t'], [' '], by rfl, by simp [isBlank], by simp [isBlank]⟩
  have hwrites : Writes orange (solid 255 128 0) :=
    .inr ⟨rfl, .cons (.inl rfl) <| .cons (.inr rfl) <| .cons (.inl rfl) <| .cons (.inl rfl) <|
      .cons (.inl rfl) <| .cons (.inl rfl) .nil⟩
  have hshort : Spells "0aF" 0 short := ⟨[], [], by rfl, by simp, by simp⟩
  have hbare : IsBare short := ⟨.inl rfl, by simp [short, isHexDigit_iff_toNat]⟩
  obtain ⟨hfull, hthree, -⟩ := written_colors_are_read_back
  obtain ⟨m, hm, n, hn, k, hk, hcases, hread⟩ := hthree "0aF" 0 (by decide) short hshort hbare rfl
  have hvalue {c : Char} {i j : Nat} (hi : i < 16) (hcase : InEitherCase c (Nat.digitChar i))
      (hj : hexValue? c = some j) : i = j :=
    Option.some.inj ((hexValue?_eq_some_iff.mpr ⟨hi, hcase⟩).symm.trans hj)
  simp only [short, List.map_cons, List.forall₂_cons] at hcases
  obtain ⟨hr, hg, hb, -⟩ := hcases
  obtain rfl := hvalue hm hr (by rfl : _ = some 0)
  obtain rfl := hvalue hn hg (by rfl : _ = some 10)
  obtain rfl := hvalue hk hb (by rfl : _ = some 15)
  exact ⟨hspells, hwrites, hfull _ 1 (by decide) _ _ hspells hwrites, hshort, hbare, rfl, hread⟩

end Color

end Bitplane
