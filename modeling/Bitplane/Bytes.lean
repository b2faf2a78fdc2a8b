/-! # Byte strings

A byte string is an array of bytes, read by offset. A slice exists exactly when
all of its bytes do; numbers of two bytes are written high byte first. Pictures are byte
strings row by row, and their sizes and places are words of 64 bits.
-/

namespace Bitplane

abbrev Bytes := Array UInt8

namespace Bytes

/-- The `len` bytes from `start` on, when the string holds all of them. -/
def slice? (data : Bytes) (start len : Nat) : Option Bytes :=
  if start + len ≤ data.size then some (data.extract start (start + len)) else none

def resize (data : Bytes) (size : Nat) (byte : UInt8) : Bytes :=
  data.take size ++ Array.replicate (size - data.size) byte

theorem slice?_eq_some_iff {data : Bytes} {start len : Nat} {part : Bytes} :
    data.slice? start len = some part ↔
      start + len ≤ data.size ∧ part = data.extract start (start + len) := by
  unfold slice?
  split
  · simp [*, eq_comm]
  · simp [*]

theorem slice?_eq_none_iff {data : Bytes} {start len : Nat} :
    data.slice? start len = none ↔ data.size < start + len := by
  unfold slice?
  split <;> simp_all

theorem size_of_slice? {data part : Bytes} {start len : Nat}
    (h : data.slice? start len = some part) : part.size = len := by
  obtain ⟨hle, rfl⟩ := slice?_eq_some_iff.mp h
  simp [Nat.min_eq_left hle]

theorem slice?_congr {data data' part : Bytes} {start len : Nat}
    (h : data.slice? start len = some part) (hle : start + len ≤ data'.size)
    (hsame : ∀ i, start ≤ i → i < start + len → data'[i]? = data[i]?) :
    data'.slice? start len = some part := by
  obtain ⟨hle', rfl⟩ := slice?_eq_some_iff.mp h
  refine slice?_eq_some_iff.mpr ⟨hle, Array.ext_getElem? fun i => ?_⟩
  rw [Array.getElem?_extract, Array.getElem?_extract, Nat.min_eq_left hle, Nat.min_eq_left hle']
  split
  case isTrue hi => exact (hsame (start + i) (by omega) (by omega)).symm
  case isFalse => rfl

end Bytes

theorem rowMajor_mod {width x : Nat} (y : Nat) (hx : x < width) : (y * width + x) % width = x := by
  rw [Nat.mul_add_mod_self_right, Nat.mod_eq_of_lt hx]

theorem rowMajor_div {width x : Nat} (y : Nat) (hx : x < width) : (y * width + x) / width = y := by
  rw [Nat.mul_comm, Nat.mul_add_div (Nat.zero_lt_of_lt hx), Nat.div_eq_of_lt hx, Nat.add_zero]

theorem rowMajor_inj {width x y x' y' : Nat} (hx : x < width) (hx' : x' < width)
    (h : y * width + x = y' * width + x') : x = x' ∧ y = y' := by
  constructor
  · rw [← rowMajor_mod y hx, h, rowMajor_mod y' hx']
  · rw [← rowMajor_div y hx, h, rowMajor_div y' hx']

theorem rowMajor_lt {width height x y : Nat} (hx : x < width) (hy : y < height) :
    y * width + x < width * height := by
  have hrow := Nat.mul_le_mul_right width (Nat.succ_le_of_lt hy)
  rw [Nat.succ_mul, Nat.mul_comm height] at hrow
  omega

/-- What a word of 64 bits keeps of a number. -/
def wrapped (n : Nat) : Nat := n % 0x10000000000000000

theorem wrapped_le (n : Nat) : wrapped n ≤ n := Nat.mod_le ..

theorem wrapped_lt (n : Nat) : wrapped n < 0x10000000000000000 := Nat.mod_lt _ (by decide)

theorem wrapped_eq_self_iff {n : Nat} : wrapped n = n ↔ n < 0x10000000000000000 :=
  Nat.mod_eq_iff_lt (by decide)

/-- Neighbouring bytes taken two at a time; an odd last byte is dropped. -/
def bytePairs : List UInt8 → List (UInt8 × UInt8)
  | a :: b :: rest => (a, b) :: bytePairs rest
  | _ => []

theorem length_bytePairs (bytes : List UInt8) : (bytePairs bytes).length = bytes.length / 2 := by
  fun_induction bytePairs bytes with
  | case1 a b rest ih =>
    simp only [List.length_cons, ih]
    omega
  | case2 bytes hshort =>
    match bytes with
    | [] => rfl
    | [_] => simp
    | a :: b :: rest => exact absurd rfl (hshort a b rest)

theorem length_flatMap_pairs (pairs : List (UInt8 × UInt8)) :
    (pairs.flatMap fun (a, b) => [a, b]).length = 2 * pairs.length := by
  induction pairs with
  | nil => rfl
  | cons pair rest ih =>
    rw [List.flatMap_cons, List.length_append, ih, List.length_cons]
    simp only [List.length_cons, List.length_nil]
    omega

theorem bytePairs_flatMap (pairs : List (UInt8 × UInt8)) :
    bytePairs (pairs.flatMap fun (a, b) => [a, b]) = pairs := by
  induction pairs with
  | nil => rfl
  | cons pair rest ih => exact congrArg (pair :: ·) ih

theorem flatMap_bytePairs {bytes : List UInt8} (h : bytes.length % 2 = 0) :
    ((bytePairs bytes).flatMap fun (a, b) => [a, b]) = bytes := by
  fun_induction bytePairs bytes with
  | case1 a b rest ih =>
    simp only [List.length_cons] at h
    exact congrArg (a :: b :: ·) (ih (by omega))
  | case2 bytes hshort =>
    rcases bytes with _ | ⟨a, _ | ⟨b, rest⟩⟩
    · rfl
    · simp at h
    · exact absurd rfl (hshort a b rest)

/-- The number that two bytes spell, high byte first. -/
def wordOf (high low : UInt8) : Nat := high.toNat * 256 + low.toNat

def wordBytes (n : Nat) : List UInt8 := [UInt8.ofNat (n / 256), UInt8.ofNat n]

theorem wordOf_wordBytes {n : Nat} (h : n < 65536) :
    wordOf (UInt8.ofNat (n / 256)) (UInt8.ofNat n) = n := by
  simp only [wordOf, UInt8.toNat_ofNat']
  omega

theorem wordOf_lt (high low : UInt8) : wordOf high low < 65536 := by
  have := high.toNat_lt
  have := low.toNat_lt
  simp only [wordOf]
  omega

theorem testBit_one_shiftLeft (n : UInt8) (i : Nat) :
    ((1 : UInt8) <<< n).toNat.testBit i = decide (n.toNat % 8 = i) := by
  have hlt : n.toNat % 8 < 8 := Nat.mod_lt _ (by decide)
  have hpow : 2 ^ (n.toNat % 8) < 2 ^ 8 := Nat.pow_lt_pow_right (by decide) hlt
  rw [UInt8.toNat_shiftLeft, UInt8.toNat_one, Nat.one_shiftLeft, Nat.mod_eq_of_lt hpow,
    Nat.testBit_two_pow]

end Bitplane
