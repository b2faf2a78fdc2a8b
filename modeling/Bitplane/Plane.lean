import Bitplane.Bytes

/-! # Planes

A plane is a layer of one byte per pixel. A lit pixel holds the plane's pen,
one bit that no other plane has. Rows are `stride` bytes apart and only their
first `width` bytes can be drawn; the viewport starts at byte `offset`.

Sizes and places are words of 64 bits. Where the rows have more bytes than a word
can count, the buffer is too short for them; behind its end, where a machine stops,
drawing does nothing.
-/

namespace Bitplane

structure Plane where
  index : UInt8
  width : Nat
  height : Nat
  stride : Nat
  /-- The place in `data` of the first pixel shown. -/
  offset : Nat
  data : Bytes
  width_le_stride : width ≤ stride
  size_data : data.size = wrapped (stride * height)

namespace Plane

/-- A dark plane; a stride below the width is raised to it. -/
def dark (index : UInt8) (width height stride : Nat) : Plane where
  index := index
  width := width
  height := height
  stride := max stride width
  offset := 0
  data := Array.replicate (wrapped (max stride width * height)) 0
  width_le_stride := Nat.le_max_right ..
  size_data := Array.size_replicate

variable (p : Plane)

/-- The byte of a lit pixel. -/
def pen : UInt8 := 1 <<< p.index

/-- A plane of the same geometry with another buffer. -/
def withData (data : Bytes) (h : data.size = p.data.size) : Plane :=
  { p with data := data, size_data := h.trans p.size_data }

/-- Whether the buffer has a byte for every column of every row. -/
def IsWhole : Prop := p.data.size = p.stride * p.height

theorem isWhole_iff : p.IsWhole ↔ p.stride * p.height < 0x10000000000000000 := by
  rw [IsWhole, p.size_data, wrapped_eq_self_iff]

instance : Decidable p.IsWhole := decidable_of_iff _ p.isWhole_iff.symm

@[simp] theorem isWhole_withData (data : Bytes) (h : data.size = p.data.size) :
    (p.withData data h).IsWhole ↔ p.IsWhole := by
  rw [isWhole_iff, isWhole_iff, withData]

/-- The place of a column of a row in the buffer. -/
def place (x y : Nat) : Nat := wrapped (y * p.stride + x)

/-- Shows the plane from drawable position `(x, y)` on. -/
def scroll (x y : Nat) : Plane := { p with offset := p.place x y }

def clear : Plane := p.withData (p.data.map fun _ => 0) (by simp)

@[simp] theorem isWhole_clear : p.clear.IsWhole ↔ p.IsWhole := p.isWhole_withData ..

def address? (x y : Int) : Option Nat :=
  if 0 ≤ x ∧ x < p.width ∧ 0 ≤ y ∧ y < p.height then some (p.place x.toNat y.toNat)
  else none

/-- Whether the pixel is lit; outside the drawable area none is. -/
def isSet (x y : Int) : Bool :=
  match p.address? x y with
  | some i => p.data.getD i 0 != 0
  | none => false

def xorPixel (x y : Int) : Plane :=
  match p.address? x y with
  | some i => p.withData (p.data.modify i (· ^^^ p.pen)) (by simp)
  | none => p

/-- Toggles `count` neighbouring bytes by `pen`, from place `i` on. -/
def xorRun (pen : UInt8) : (count i : Nat) → Bytes → Bytes
  | 0, _, data => data
  | count + 1, i, data => xorRun pen count (i + 1) (data.modify i (· ^^^ pen))

theorem size_xorRun (pen : UInt8) (count i : Nat) (data : Bytes) :
    (xorRun pen count i data).size = data.size := by
  induction count generalizing i data with
  | zero => rfl
  | succ count ih => simp [xorRun, ih]

/-- The drawable part of row `y` from column `x₀` to column `x₁`: its first place in
the buffer and its length. -/
def run (y x₀ x₁ : Int) : Nat × Nat :=
  let first := max x₀ 0
  let last := min x₁ (p.width - 1)
  if y < 0 ∨ p.height ≤ y ∨ last < first then (0, 0)
  else (p.place first.toNat y.toNat, (last - first + 1).toNat)

def xorSpan (y x₀ x₁ : Int) : Plane :=
  p.withData (xorRun p.pen (p.run y x₀ x₁).2 (p.run y x₀ x₁).1 p.data) (size_xorRun ..)

/-- The byte shown at viewport position `(x, y)`; beyond the end of its row or of
the buffer there is nothing to show. -/
def sample (x y : Nat) : UInt8 :=
  if p.stride = 0 ∨ p.stride ≤ wrapped (p.offset % p.stride + x) then 0
  else p.data.getD (wrapped (p.offset + y * p.stride + x)) 0

/-- The number of lit pixels, padding included. -/
def litCount : Nat := p.data.countP (· != 0)

end Plane

end Bitplane
