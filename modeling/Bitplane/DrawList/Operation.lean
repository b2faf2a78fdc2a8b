import Bitplane.Polygon

/-! # Draw operations

What the commands of a draw list stand for. Each operation keeps the offset of
its command byte and the byte itself.
-/

namespace Bitplane

structure TweenRef where
  fromOffset : Nat
  toOffset : Nat
  t : UInt8
  tMax : UInt8
  deriving DecidableEq, Repr

inductive DrawOp where
  | polygon (offset : Nat) (command plane : UInt8) (shape : Polygon)
  | tween (offset : Nat) (command plane : UInt8) (ref : TweenRef)
  | skip (offset : Nat) (command : UInt8) (bytes : Nat)
  deriving DecidableEq, Repr

namespace DrawOp

def offset : DrawOp → Nat
  | .polygon offset .. | .tween offset .. | .skip offset .. => offset

def command : DrawOp → UInt8
  | .polygon _ command .. | .tween _ command .. | .skip _ command .. => command

def plane? : DrawOp → Option UInt8
  | .polygon _ _ plane _ | .tween _ _ plane _ => some plane
  | .skip .. => none

open Text in
def text : DrawOp → String
  | .polygon offset command plane shape =>
    s!"{hex 4 offset} {byteCapitals command} polygon plane={plane.toNat} vertices={shape.size}"
  | .tween offset command plane ref =>
    s!"{hex 4 offset} {byteCapitals command} tween plane={plane.toNat}" ++
      s!" from={hex 4 ref.fromOffset} to={hex 4 ref.toOffset} t={ref.t.toNat}/{ref.tMax.toNat}"
  | .skip offset command bytes =>
    s!"{hex 4 offset} {byteCapitals command} skip {bytes} bytes"

end DrawOp

end Bitplane
