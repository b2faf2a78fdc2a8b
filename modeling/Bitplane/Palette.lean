import Bitplane.Color

/-! # Palettes

A palette gives a color to each combination of lit planes. Indices beyond its
entries are black.
-/

namespace Bitplane

structure Palette where
  colors : List Color
  deriving DecidableEq, Repr

namespace Palette

/-- An entry for each combination of four planes. -/
def maxColors : Nat := 16

/-- The colors of planes 0 to 3 in the layered palette. -/
def planeColors : List Color :=
  [.solid 0 255 0, .solid 0 0 255, .solid 255 0 0, .solid 255 255 0]

/-- The color of the highest lit plane, as if the planes were painted in order. -/
def topColor (index : Nat) : Color :=
  match planeColors.zipIdx.reverse.find? fun (_, plane) => index.testBit plane with
  | some (color, _) => color
  | none => .black

def dark : Palette := ⟨List.replicate maxColors .black⟩

def layered : Palette := ⟨(List.range maxColors).map topColor⟩

def monochrome : Palette := ⟨.black :: List.replicate (maxColors - 1) .white⟩

instance : Inhabited Palette := ⟨layered⟩

/-- A palette of explicit entries, at most sixteen. -/
def ofColors (colors : List Color) : Except PaletteFault Palette :=
  if maxColors < colors.length then .error (.tooManyColors colors.length maxColors)
  else .ok ⟨colors⟩

variable (p : Palette)

def size : Nat := p.colors.length

def get (index : Nat) : Color := p.colors.getD index .black

/-- Gives an index a color, with black up to it where there is no entry yet. -/
def set (index : UInt8) (color : Color) : Except PaletteFault Palette :=
  let i := index.toNat
  if maxColors ≤ i then .error (.indexOutOfRange index)
  else
    let grown := p.colors ++ List.replicate (i + 1 - p.size) .black
    .ok ⟨grown.set i color⟩

/-- The palette `step` steps out of `total` on the way from `a` to `b`. -/
def fade (a b : Palette) (step total : Nat) : Except PaletteFault Palette :=
  if total < step then .error (.blendStep step total)
  else
    .ok ⟨(List.range (max a.size b.size)).map fun i => Color.fade step total (a.get i) (b.get i)⟩

def text : String := s!"Palette: {p.size} colors defined"

end Palette

end Bitplane
