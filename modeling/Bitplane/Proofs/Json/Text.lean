import Bitplane.Document.Json.Reader
import Bitplane.Document.Json.Writer
import Bitplane.Proofs.Text.Utf8

/-! # Texts read back

A text is read as it is written. Each of its characters comes back as pieces of its own:
an octet behind a backslash, the number of a control character, or its octets.
-/

namespace Bitplane.Document.Json

open Text

variable {c : Char} {cs : List Char} {found parts : List TextPart} {n : Nat}

/-- Pieces that a character is read into, in front of any others. -/
structure PiecesOf (c : Char) (parts : List TextPart) : Prop where
  read (found : List TextPart) (rest : List Char) :
    textParts found (octetsOf (textChar c) ++ rest) = textParts (parts.reverse ++ found) rest
  bytes (more : List TextPart) :
    partBytes (parts ++ more) = (partBytes more).map (charBytes c ++ ·)

/-- An octet that stands for itself inside a text. -/
def IsPlain (o : Char) : Prop := o ≠ '"' ∧ o ≠ '\\' ∧ 0x20 ≤ o.toNat

theorem textParts_of_isPlain {o : Char} (h : IsPlain o) (found : List TextPart) (rest : List Char) :
    textParts found (o :: rest) = textParts (.octet o :: found) rest := by
  obtain ⟨hquote, hback, hle⟩ := h
  rw [textParts]
  · rw [if_neg (Nat.not_lt.mpr hle)]
  · exact hquote
  · exact fun a b c d rest h => absurd h hback
  · exact fun e rest h => absurd h hback

theorem textParts_map_octet {os : List Char} (h : ∀ o ∈ os, IsPlain o) (found : List TextPart)
    (rest : List Char) :
    textParts found (os ++ rest) = textParts ((os.map .octet).reverse ++ found) rest := by
  induction os generalizing found with
  | nil => rfl
  | cons o os ih =>
    rw [List.cons_append, textParts_of_isPlain (h o List.mem_cons_self),
      ih fun o ho => h o (List.mem_cons_of_mem _ ho)]
    simp

theorem partBytes_map_octet (os : List Char) (more : List TextPart) :
    partBytes (os.map .octet ++ more) = (partBytes more).map (os.map octetByte ++ ·) := by
  induction os with
  | nil => simp
  | cons o os ih => simp [partBytes, ih, Function.comp_def]

theorem partBytes_unit (hn : n < 0x20) (more : List TextPart) :
    partBytes (.unit n :: more) = (partBytes more).map (charBytes (Char.ofNat n) ++ ·) := by
  have hhigh : isHighHalf n = false := by simp [isHighHalf]; omega
  have hlow : isLowHalf n = false := by simp [isLowHalf]; omega
  match more with
  | [] => simp [partBytes, hhigh, hlow]
  | .octet o :: more => simp [partBytes, hhigh, hlow]
  | .unit low :: more => simp [partBytes, hhigh, hlow]

theorem textChar_cases (c : Char) :
    (∃ e, textChar c = ['\\', e] ∧ escaped? e = some c ∧ e ≠ 'u' ∧ e.toNat < 0x80 ∧
      c.toNat < 0x80) ∨
    (textChar c = ['\\', 'u'] ++ padLeft '0' 4 (Nat.toDigits 16 c.toNat) ∧ c.toNat < 0x20) ∨
    (textChar c = [c] ∧ IsPlain c) := by
  unfold textChar
  split
  case h_1 => exact .inl ⟨'"', by decide⟩
  case h_2 => exact .inl ⟨'\\', by decide⟩
  case h_3 => exact .inl ⟨'b', by decide⟩
  case h_4 => exact .inl ⟨'f', by decide⟩
  case h_5 => exact .inl ⟨'n', by decide⟩
  case h_6 => exact .inl ⟨'r', by decide⟩
  case h_7 => exact .inl ⟨'t', by decide⟩
  case h_8 hquote hback _ _ _ _ _ =>
    by_cases hcontrol : c.toNat < 0x20
    · exact .inr (.inl ⟨if_pos hcontrol, hcontrol⟩)
    · exact .inr (.inr ⟨if_neg hcontrol, hquote, hback, Nat.le_of_not_lt hcontrol⟩)

theorem piecesOf_escape {e : Char} (hspelled : textChar c = ['\\', e])
    (hescaped : escaped? e = some c) (hu : e ≠ 'u') (he : e.toNat < 0x80) (hc : c.toNat < 0x80) :
    PiecesOf c [.octet c] where
  read found rest := by
    rw [hspelled, octetsOf_cons (by decide), octetsOf_cons he, octetsOf_nil, List.cons_append,
      List.singleton_append, textParts]
    · rw [hescaped]
      rfl
    · exact fun a b c d rest h => absurd h hu
  bytes more := by
    have hbytes : charBytes c = [octetByte c] := by
      rw [← map_octetByte_charOctets, charOctets_of_lt hc, List.map_singleton]
    rw [hbytes, List.singleton_append, partBytes]
    rfl

theorem unit?_padLeft : ∀ n < 0x20, padLeft '0' 4 (Nat.toDigits 16 n) =
    ['0', '0', Nat.digitChar (n / 16), Nat.digitChar (n % 16)] ∧
      (padLeft '0' 4 (Nat.toDigits 16 n)).all (·.toNat < 0x80) = true ∧
      unit? '0' '0' (Nat.digitChar (n / 16)) (Nat.digitChar (n % 16)) = some n := by
  decide

theorem piecesOf_unit
    (hspelled : textChar c = ['\\', 'u'] ++ padLeft '0' 4 (Nat.toDigits 16 c.toNat))
    (hc : c.toNat < 0x20) : PiecesOf c [.unit c.toNat] where
  read found rest := by
    obtain ⟨hdigits, hlow, hunit⟩ := unit?_padLeft c.toNat hc
    have hmark : octetsOf ['\\', 'u'] = ['\\', 'u'] := octetsOf_of_lt (by simp)
    have hoctets := octetsOf_of_lt fun d hd => of_decide_eq_true (List.all_eq_true.mp hlow d hd)
    rw [hspelled, octetsOf_append, hoctets, hdigits, hmark]
    simp only [List.cons_append, List.nil_append]
    rw [textParts, hunit]
    rfl
  bytes more := by
    rw [List.singleton_append, partBytes_unit hc, Char.ofNat_toNat]

theorem isPlain_of_le {o : Char} (h : 0x80 ≤ o.toNat) : IsPlain o := by
  refine ⟨?_, ?_, by omega⟩ <;> rintro rfl <;> exact absurd h (by decide)

theorem piecesOf_octets (hspelled : textChar c = [c]) (hc : IsPlain c) :
    PiecesOf c ((charOctets c).map .octet) where
  read found rest := by
    have hplain : ∀ o ∈ charOctets c, IsPlain o := by
      intro o ho
      by_cases hlt : c.toNat < 0x80
      · rw [charOctets_of_lt hlt, List.mem_singleton] at ho
        rwa [ho]
      · exact isPlain_of_le (le_of_mem_charOctets (Nat.le_of_not_lt hlt) ho)
    rw [hspelled, octetsOf, List.flatMap_singleton, textParts_map_octet hplain]
  bytes more := by rw [partBytes_map_octet, map_octetByte_charOctets]

theorem exists_piecesOf (c : Char) : ∃ parts, PiecesOf c parts := by
  rcases textChar_cases c with ⟨e, hspelled, hescaped, hu, he, hc⟩ | ⟨hspelled, hc⟩ |
    ⟨hspelled, hc⟩
  · exact ⟨_, piecesOf_escape hspelled hescaped hu he hc⟩
  · exact ⟨_, piecesOf_unit hspelled hc⟩
  · exact ⟨_, piecesOf_octets hspelled hc⟩

theorem exists_textParts (cs : List Char) (found : List TextPart) (rest : List Char) :
    ∃ parts, partBytes parts = some (cs.flatMap charBytes) ∧
      textParts found (octetsOf (cs.flatMap textChar) ++ '"' :: rest) =
        some (found.reverse ++ parts, rest) := by
  induction cs generalizing found with
  | nil => exact ⟨[], rfl, by simp [textParts]⟩
  | cons c cs ih =>
    obtain ⟨front, hfront⟩ := exists_piecesOf c
    obtain ⟨parts, hbytes, hread⟩ := ih (front.reverse ++ found)
    refine ⟨front ++ parts, ?_, ?_⟩
    · rw [hfront.bytes, hbytes, Option.map_some, List.flatMap_cons]
    · rw [List.flatMap_cons, octetsOf_append, List.append_assoc, hfront.read, hread]
      simp

theorem octetsOf_textChars (s : String) (rest : List Char) : octetsOf (textChars s) ++ rest =
    '"' :: (octetsOf (s.toList.flatMap textChar) ++ '"' :: rest) := by
  simp [textChars, octetsOf_cons]

/-- What stands between its quotes reads back as the text, whatever stands behind it. -/
theorem exists_textParts_textChars (s : String) (rest : List Char) :
    ∃ parts, joinParts parts = some s ∧
      textParts [] (octetsOf (s.toList.flatMap textChar) ++ '"' :: rest) = some (parts, rest) := by
  obtain ⟨parts, hbytes, hread⟩ := exists_textParts s.toList [] rest
  refine ⟨parts, ?_, hread⟩
  have htext : s.toList.flatMap charBytes = (toBytes s).toList := by
    rw [toList_toBytes]
    exact congrArg s.toList.flatMap (funext charBytes_eq)
  rw [joinParts, hbytes, Option.bind_some, htext, Array.toArray_toList, ofBytes?_toBytes]

end Bitplane.Document.Json
