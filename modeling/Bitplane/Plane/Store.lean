import Bitplane.Plane
import Bitplane.Fault

/-! # Plane stores

The planes that frames are drawn into, numbered from zero.
-/

namespace Bitplane

structure PlaneStore where
  planes : Array Plane

namespace PlaneStore

def dark (count width height stride : Nat) : PlaneStore :=
  ⟨Array.ofFn fun i : Fin count => Plane.dark (UInt8.ofNat i) width height stride⟩

def size (s : PlaneStore) : Nat := s.planes.size

def get (s : PlaneStore) (plane : UInt8) : Except FrameFault Plane :=
  match s.planes[plane.toNat]? with
  | some p => .ok p
  | none => .error (.planeOutOfRange plane s.size)

def set (s : PlaneStore) (plane : UInt8) (p : Plane) : PlaneStore :=
  ⟨s.planes.setIfInBounds plane.toNat p⟩

/-- Changes one plane, which has to exist. -/
def modify (s : PlaneStore) (plane : UInt8) (f : Plane → Plane) : Except FrameFault PlaneStore :=
  (s.get plane).map fun p => s.set plane (f p)

def clearAll (s : PlaneStore) : PlaneStore := ⟨s.planes.map Plane.clear⟩

end PlaneStore

end Bitplane
