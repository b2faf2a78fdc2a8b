import Bitplane.Bytes

/-! # Texts and bytes

The bytes of a text, the text that bytes spell, and bytes as characters below 256,
for formats whose own marks are ASCII.
-/

namespace Bitplane.Text

def toBytes (text : String) : Bytes := text.toUTF8.data

def ofBytes? (data : Bytes) : Option String := String.fromUTF8? ⟨data⟩

/-- Each byte as the character with its number. -/
def octets (data : Bytes) : List Char := data.toList.map fun b => Char.ofNat b.toNat

def octetByte (c : Char) : UInt8 := UInt8.ofNat c.toNat

def charBytes (c : Char) : List UInt8 := (toBytes (String.singleton c)).toList

end Bitplane.Text
