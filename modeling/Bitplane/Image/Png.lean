import Bitplane.Framebuffer
import Bitplane.Image.Checksum

/-! # Image files

A framebuffer as a PNG file with eight bits per channel. The rows are stored,
not compressed, in blocks of at most 65535 bytes.
-/

namespace Bitplane.Png

def longBytes (n : Nat) : Bytes :=
  #[UInt8.ofNat (n / 16777216), UInt8.ofNat (n / 65536), UInt8.ofNat (n / 256), UInt8.ofNat n]

/-- A chunk: its length, its name, its content and their checksum. -/
def chunk (name : String) (content : Bytes) : Bytes :=
  let body := name.toUTF8.data ++ content
  longBytes content.size ++ body ++ longBytes (Checksum.crc body).toNat

/-- The rows of an image, each behind the mark of an unfiltered row. -/
def rows (f : Framebuffer) : Bytes :=
  (Array.range f.height).flatMap fun y =>
    #[0] ++ (f.pixels.extract (y * f.width) (y * f.width + f.width)).flatMap fun c =>
      c.channels.toArray

/-- One stored block of `data` from place `i` on. -/
def storedBlock (data : Bytes) (i : Nat) : Bytes :=
  let part := data.extract i (i + 65535)
  let n := part.size
  let final : UInt8 := if data.size ≤ i + 65535 then 1 else 0
  #[final, UInt8.ofNat n, UInt8.ofNat (n / 256), UInt8.ofNat (65535 - n),
    UInt8.ofNat ((65535 - n) / 256)] ++ part

def storedStream (data : Bytes) : Bytes :=
  let blocks := (Array.range ((data.size + 65534) / 65535)).flatMap fun i =>
    storedBlock data (i * 65535)
  #[0x78, 0x01] ++ blocks ++ longBytes (Checksum.adler data).toNat

def encode (f : Framebuffer) : Bytes :=
  #[0x89, 0x50, 0x4E, 0x47, 0x0D, 0x0A, 0x1A, 0x0A] ++
    chunk "IHDR" (longBytes f.width ++ longBytes f.height ++ #[8, 6, 0, 0, 0]) ++
    chunk "IDAT" (storedStream (rows f)) ++ chunk "IEND" #[]

end Bitplane.Png
