import Bitplane.Fault
import Bitplane.Text.Blank
import Bitplane.Text.Quoted

/-! # Colors

A color has four channels of one byte. Its text is a mark and two hexadecimal
digits per channel; an opaque color leaves out its last channel.
-/

namespace Bitplane

structure Color where
  r : UInt8
  g : UInt8
  b : UInt8
  a : UInt8
  deriving DecidableEq, Repr

namespace Color

def solid (r g b : UInt8) : Color := ⟨r, g, b, 255⟩

def black : Color := solid 0 0 0

def white : Color := solid 255 255 255

instance : Inhabited Color := ⟨black⟩

def channels (c : Color) : List UInt8 := [c.r, c.g, c.b, c.a]

def digits (c : Color) : String := String.ofList (c.channels.flatMap Text.byteDigits)

def text (c : Color) : String :=
  let shown := if c.a = 255 then [c.r, c.g, c.b] else c.channels
  "#" ++ String.ofList (shown.flatMap Text.byteDigits)

/-- A channel spelled by two characters: two digits, or a plus sign and a digit. -/
def channel? (high low : Char) : Option UInt8 := do
  let low ← Text.hexValue? low
  if high = '+' then return UInt8.ofNat low
  let high ← Text.hexValue? high
  return UInt8.ofNat (high * 16 + low)

/-- A channel spelled by one digit, which stands for itself twice. -/
def shortChannel? (digit : Char) : Option UInt8 :=
  (Text.hexValue? digit).map fun n => UInt8.ofNat (n * 17)

/-- The color that bare digits spell: three short channels, three or four full ones. -/
def ofDigits? : List Char → Option Color
  | [r, g, b] => do return solid (← shortChannel? r) (← shortChannel? g) (← shortChannel? b)
  | [r, r', g, g', b, b'] => do
    return solid (← channel? r r') (← channel? g g') (← channel? b b')
  | [r, r', g, g', b, b', a, a'] => do
    return ⟨← channel? r r', ← channel? g g', ← channel? b b', ← channel? a a'⟩
  | _ => none

/-- The color that a text spells, with blanks around it and marks in front left out. -/
def ofText (text : String) : Except PaletteFault Color :=
  match ofDigits? ((Text.trim text.toList).dropWhile (· == '#')) with
  | some color => .ok color
  | none => .error (.invalidColor (Text.quoted text))

/-- A channel `step / total` of the way to another, with the difference rounded
toward zero. -/
def fadeChannel (step total : Nat) (a b : UInt8) : UInt8 :=
  let moved := (a.toNat : Int) + (((b.toNat : Int) - a.toNat) * step).tdiv total
  UInt8.ofNat (min moved.toNat 255)

def fade (step total : Nat) (a b : Color) : Color :=
  if step = 0 then a
  else
    let channel := fadeChannel step total
    ⟨channel a.r b.r, channel a.g b.g, channel a.b b.b, channel a.a b.a⟩

end Color

end Bitplane
