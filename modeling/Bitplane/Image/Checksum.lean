import Bitplane.Bytes

/-! # Checksums

The two checksums of image files: the remainder of a polynomial division, and a
pair of running sums.
-/

namespace Bitplane.Checksum

/-- Eight steps of the division by the polynomial with the reflected form 0xEDB88320. -/
def divide : (steps : Nat) → UInt32 → UInt32
  | 0, c => c
  | steps + 1, c => divide steps (if c &&& 1 = 1 then (c >>> 1) ^^^ 0xEDB88320 else c >>> 1)

def crc (data : Bytes) : UInt32 :=
  data.foldl (fun c b => (divide 8 ((c ^^^ b.toUInt32) &&& 0xFF)) ^^^ (c >>> 8)) 0xFFFFFFFF
    ^^^ 0xFFFFFFFF

/-- The sum of the bytes and the sum of those sums, modulo 65521, starting at one. -/
def adler (data : Bytes) : UInt32 :=
  let (low, high) := data.foldl (fun ((low, high) : Nat × Nat) b =>
    let low := (low + b.toNat) % 65521
    (low, (high + low) % 65521)) (1, 0)
  UInt32.ofNat (high * 65536 + low)

end Bitplane.Checksum
