import Bitplane.Document.Json.Number
import Bitplane.Document.Json.Writer

/-! # Whole numbers read back

A whole number of 64 bits is read as it is written, whatever stands behind it that goes on
with no number.
-/

namespace Bitplane.Document.Json

open Text

variable {n : Nat} {ds rest : List Char}

/-- No number goes on with these characters. -/
def EndsNumber (rest : List Char) : Prop :=
  ∀ c ∈ rest.head?, isDigit c = false ∧ c ≠ '.' ∧ c ≠ 'e' ∧ c ≠ 'E'

theorem isDigit_of_mem_toDigits {c : Char} (h : c ∈ Nat.toDigits 10 n) : isDigit c = true :=
  Nat.isDigit_of_mem_toDigits (by decide) (by decide) h

theorem exists_toDigits (n : Nat) :
    ∃ c cs, Nat.toDigits 10 n = c :: cs ∧ isDigit c = true := by
  obtain ⟨c, cs, hcs⟩ : ∃ c cs, Nat.toDigits 10 n = c :: cs :=
    List.exists_cons_of_ne_nil Nat.toDigits_ne_nil
  exact ⟨c, cs, hcs, isDigit_of_mem_toDigits (hcs ▸ List.mem_cons_self)⟩

theorem takeWhile_append_of_endsNumber (h : ∀ c ∈ ds, isDigit c = true) (hrest : EndsNumber rest) :
    (ds ++ rest).takeWhile isDigit = ds ∧ (ds ++ rest).dropWhile isDigit = rest := by
  rw [List.takeWhile_append_of_pos h, List.dropWhile_append_of_pos h]
  cases rest with
  | nil => simp
  | cons c cs =>
    have hc := (hrest c rfl).1
    simp [hc]

theorem digits?_toDigits (hrest : EndsNumber rest) :
    digits? (Nat.toDigits 10 n ++ rest) = some (Nat.toDigits 10 n, rest) := by
  have hdigits : ∀ c ∈ Nat.toDigits 10 n, isDigit c = true := fun _ => isDigit_of_mem_toDigits
  obtain ⟨htake, hdrop⟩ := takeWhile_append_of_endsNumber hdigits hrest
  rw [digits?, htake, hdrop]
  simp [Nat.toDigits_ne_nil]

theorem fraction?_of_endsNumber (hrest : EndsNumber rest) : fraction? rest = some (none, rest) := by
  unfold fraction?
  split
  case h_1 => exact absurd rfl (hrest '.' rfl).2.1
  case h_2 => rfl

theorem exponent?_of_endsNumber (hrest : EndsNumber rest) : exponent? rest = some (none, rest) := by
  unfold exponent?
  split
  case h_1 => exact absurd rfl (hrest 'e' rfl).2.2.1
  case h_2 => exact absurd rfl (hrest 'E' rfl).2.2.2
  case h_3 => rfl

theorem head?_toDigits_ne (h : n ≠ 0) : (Nat.toDigits 10 n).head? ≠ some '0' := by
  induction n using Nat.strongRecOn with
  | ind n ih =>
    rcases Nat.lt_or_ge n 10 with hlt | hge
    · have hdigit : ∀ d < 10, d ≠ 0 → d.digitChar ≠ '0' := by decide
      rw [Nat.toDigits_of_lt_base hlt]
      simpa using hdigit n hlt h
    · rw [Nat.toDigits_of_base_le (by decide) hge,
        List.head?_append, Option.or_of_isSome (by simp [Nat.toDigits_ne_nil])]
      exact ih (n / 10) (by omega) (by omega)

theorem length_toDigits_of_head? (h : (Nat.toDigits 10 n).head? = some '0') :
    (Nat.toDigits 10 n).length = 1 := by
  have hzero : n = 0 := Classical.not_not.mp fun hne => head?_toDigits_ne hne h
  rw [hzero]
  rfl

theorem le_ofDigitChars (ds : List Char) (m : Nat) : m ≤ Nat.ofDigitChars 10 ds m := by
  induction ds generalizing m with
  | nil => simp
  | cons c rest ih =>
    rw [Nat.ofDigitChars_cons]
    exact Nat.le_trans (by omega) (ih _)

theorem takeDigits_eq {m : Nat} (h : Nat.ofDigitChars 10 ds m < 0x10000000000000000) :
    takeDigits m ds = (Nat.ofDigitChars 10 ds m, []) := by
  induction ds generalizing m with
  | nil => rfl
  | cons c rest ih =>
    rw [Nat.ofDigitChars_cons, Nat.mul_comm 10] at h
    rw [takeDigits, if_pos (Nat.lt_of_le_of_lt (le_ofDigitChars rest _) h), ih h,
      Nat.ofDigitChars_cons, Nat.mul_comm 10]

theorem significand_toDigits (h : n < 0x10000000000000000) :
    significand (Nat.toDigits 10 n) [] = (n, 0) := by
  have hvalue : Nat.ofDigitChars 10 (Nat.toDigits 10 n) 0 = n := Nat.ofDigitChars_ten_toDigits
  simp only [significand, takeDigits_eq (hvalue ▸ h), takeDigits, hvalue]
  simp

theorem magnitude?_toDigits (negative : Bool) (hrest : EndsNumber rest) :
    magnitude? negative (Nat.toDigits 10 n ++ rest) =
      some (whole negative (Nat.toDigits 10 n), rest) := by
  have hzero : ¬((Nat.toDigits 10 n).head? = some '0' ∧ 1 < (Nat.toDigits 10 n).length) := by
    rintro ⟨hhead, hlength⟩
    have := length_toDigits_of_head? hhead
    omega
  simp [magnitude?, digits?_toDigits hrest, fraction?_of_endsNumber hrest,
    exponent?_of_endsNumber hrest]
  simpa using hzero

theorem number?_of_isDigit {c : Char} (hc : isDigit c = true) :
    number? (c :: ds) = magnitude? false (c :: ds) := by
  unfold number?
  split
  case h_1 heq =>
    obtain ⟨rfl, -⟩ := List.cons.inj heq
    exact absurd hc (by decide)
  case h_2 => rfl

theorem number?_intChars {i : Int} (hlow : -0x8000000000000000 ≤ i)
    (hhigh : i < 0x10000000000000000) (hrest : EndsNumber rest) :
    number? (intChars i ++ rest) = some (.int i, rest) := by
  cases i with
  | ofNat n =>
    obtain ⟨c, cs, hcs, hc⟩ := exists_toDigits n
    have hn : n < 0x10000000000000000 := by
      change (n : Int) < _ at hhigh
      omega
    rw [intChars, hcs, List.cons_append, number?_of_isDigit hc, ← List.cons_append, ← hcs,
      magnitude?_toDigits false hrest, whole, significand_toDigits hn]
    simp
  | negSucc n =>
    rw [intChars, List.cons_append, number?, magnitude?_toDigits true hrest, whole,
      significand_toDigits (by omega)]
    have hvalue : (0 : Int) = 0 ∧ -0x8000000000000000 ≤ -((n + 1 : Nat) : Int) ∧
        ¬(true = true ∧ n + 1 = 0) := ⟨rfl, by omega, by omega⟩
    exact congrArg (fun d => some (d, rest)) (if_pos hvalue)

end Bitplane.Document.Json
