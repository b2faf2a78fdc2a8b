import Bitplane.Bytes

/-! # Repaired texts

The text that bytes spell in UTF-8, with the replacement character for every part
that spells nothing: the longest start of a character that is cut off, or else a
single byte.
-/

namespace Bitplane.Text

def replacement : Char := '\ufffd'

structure Unfinished where
  /-- The bytes to come, at least one. -/
  missing : Nat
  /-- The least and the greatest value of the next byte. -/
  least : UInt8
  greatest : UInt8
  /-- The number that the bits so far spell. -/
  code : Nat

/-- Where a byte leads to that no character waits for. -/
inductive Lead where
  | done (c : Char)
  | more (u : Unfinished)

def lead (b : UInt8) : Lead :=
  let more (missing : Nat) (least greatest : UInt8) (mask : UInt8) : Lead :=
    .more ⟨missing, least, greatest, (b &&& mask).toNat⟩
  if b < 0x80 then .done (Char.ofNat b.toNat)
  else if b < 0xC2 then .done replacement
  else if b < 0xE0 then more 1 0x80 0xBF 0x1F
  else if b == 0xE0 then more 2 0xA0 0xBF 0x0F
  else if b == 0xED then more 2 0x80 0x9F 0x0F
  else if b < 0xF0 then more 2 0x80 0xBF 0x0F
  else if b == 0xF0 then more 3 0x90 0xBF 0x07
  else if b < 0xF4 then more 3 0x80 0xBF 0x07
  else if b == 0xF4 then more 3 0x80 0x8F 0x07
  else .done replacement

/-- The characters found so far, the last one first, and the one that waits for its rest. -/
abbrev Repair := List Char × Option Unfinished

/-- Goes on with a byte that starts a character, or none. -/
def Repair.start (found : List Char) (b : UInt8) : Repair :=
  match lead b with
  | .done c => (c :: found, none)
  | .more u => (found, some u)

def Repair.next : Repair → UInt8 → Repair
  | (found, none), b => start found b
  | (found, some u), b =>
    if u.least ≤ b && b ≤ u.greatest then
      let code := u.code * 64 + (b &&& 0x3F).toNat
      if u.missing ≤ 1 then (Char.ofNat code :: found, none)
      else (found, some ⟨u.missing - 1, 0x80, 0xBF, code⟩)
    else start (replacement :: found) b

def Repair.chars : Repair → List Char
  | (found, none) => found.reverse
  | (found, some _) => (replacement :: found).reverse

def repaired (data : Bytes) : String :=
  String.ofList (Repair.chars (data.foldl Repair.next ([], none)))

def withoutMark (data : Bytes) : Bytes :=
  if data.extract 0 3 == #[0xEF, 0xBB, 0xBF] then data.extract 3 data.size else data

end Bitplane.Text
