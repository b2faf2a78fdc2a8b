import Bitplane.DrawList.Operation
import Bitplane.Plane.Store
import Bitplane.Tween

/-! # What operations draw

A polygon and a tween that resolves draw one shape into one plane. Everything else
draws nothing, whatever plane it names.
-/

namespace Bitplane

namespace DrawOp

variable (revision : Revision) (data : Bytes)

/-- The shape that an operation draws, and the plane it goes into. -/
def shape? : DrawOp → Option (UInt8 × Polygon)
  | .polygon _ _ plane shape => some (plane, shape)
  | .tween _ _ plane ref =>
    match Tween.polygon revision data ref with
    | .ok shape => some (plane, shape)
    | .error _ => none
  | .skip .. => none

def refused? : DrawOp → Option FrameFault
  | .tween offset _ _ ref =>
    match Tween.polygon revision data ref with
    | .ok _ => none
    | .error fault => some (.tween offset fault)
  | .polygon .. | .skip .. => none

def resolves : DrawOp → Bool
  | .tween _ _ _ ref => (Tween.polygon revision data ref).isOk
  | .polygon .. | .skip .. => false

/-- The fault of drawing into a plane that a store of this size does not have. -/
def misfit? (size : Nat) (op : DrawOp) : Option FrameFault :=
  match op.shape? revision data with
  | some (plane, _) => if plane.toNat < size then none else some (.planeOutOfRange plane size)
  | none => none

def shapesInto (n : Nat) (ops : List DrawOp) : List Polygon :=
  (ops.filterMap (shape? revision data)).filterMap fun (plane, shape) =>
    if plane.toNat = n then some shape else none

variable {revision data} {op : DrawOp} {plane : UInt8} {shape : Polygon} {size : Nat}

theorem plane?_of_shape? (h : op.shape? revision data = some (plane, shape)) :
    op.plane? = some plane := by
  cases op with
  | polygon =>
    cases h
    rfl
  | tween _ _ _ ref =>
    simp only [shape?] at h
    cases hpolygon : Tween.polygon revision data ref with
    | ok =>
      rw [hpolygon] at h
      cases h
      rfl
    | error =>
      rw [hpolygon] at h
      cases h
  | skip => cases h

theorem refused?_of_shape? (h : op.shape? revision data = some (plane, shape)) :
    op.refused? revision data = none := by
  cases op with
  | polygon => rfl
  | tween _ _ _ ref =>
    simp only [shape?, refused?] at h ⊢
    cases hpolygon : Tween.polygon revision data ref with
    | ok => rfl
    | error =>
      rw [hpolygon] at h
      cases h
  | skip => rfl

theorem shapesInto_ne_nil_iff {n : Nat} {ops : List DrawOp} :
    shapesInto revision data n ops ≠ [] ↔
      ∃ op ∈ ops, ∃ plane shape, op.shape? revision data = some (plane, shape) ∧
        plane.toNat = n := by
  constructor
  · intro h
    obtain ⟨_, hmem⟩ := List.exists_mem_of_ne_nil _ h
    simp only [shapesInto, List.mem_filterMap] at hmem
    obtain ⟨⟨plane, shape⟩, ⟨op, hop, hshape⟩, hn⟩ := hmem
    dsimp only at hn
    split at hn
    case isTrue heq => exact ⟨op, hop, plane, shape, hshape, heq⟩
    case isFalse => cases hn
  · rintro ⟨op, hop, plane, shape, hshape, heq⟩
    refine List.ne_nil_of_mem (a := shape) ?_
    simp only [shapesInto, List.mem_filterMap]
    exact ⟨(plane, shape), ⟨op, hop, hshape⟩, if_pos heq⟩

theorem misfit?_eq_none_iff :
    op.misfit? revision data size = none ↔
      ∀ plane shape, op.shape? revision data = some (plane, shape) → plane.toNat < size := by
  unfold misfit?
  split
  case h_1 plane shape hshape =>
    constructor
    · intro h plane' shape' hshape'
      cases hshape.symm.trans hshape'
      split at h
      · assumption
      · cases h
    · intro h
      rw [if_pos (h plane shape hshape)]
  case h_2 hshape =>
    constructor
    · intro _ plane shape hshape'
      cases hshape.symm.trans hshape'
    · intro _
      rfl

theorem misfit?_eq_some {fault : FrameFault} (h : op.misfit? revision data size = some fault) :
    ∃ plane shape, op.shape? revision data = some (plane, shape) ∧ size ≤ plane.toNat ∧
      fault = .planeOutOfRange plane size := by
  unfold misfit? at h
  split at h
  case h_1 plane shape hshape =>
    split at h
    · cases h
    case isFalse hlt =>
      cases h
      exact ⟨plane, shape, hshape, Nat.le_of_not_lt hlt, rfl⟩
  case h_2 => cases h

theorem shapesInto_concat_some (n : Nat) (ops : List DrawOp)
    (h : op.shape? revision data = some (plane, shape)) :
    shapesInto revision data n (ops ++ [op]) =
      shapesInto revision data n ops ++ if plane.toNat = n then [shape] else [] := by
  simp only [shapesInto, List.filterMap_append, List.filterMap_cons, List.filterMap_nil, h]
  by_cases hn : plane.toNat = n <;> simp [hn]

theorem shapesInto_concat_none (n : Nat) (ops : List DrawOp)
    (h : op.shape? revision data = none) :
    shapesInto revision data n (ops ++ [op]) = shapesInto revision data n ops := by
  simp [shapesInto, h]

def isPolygon : DrawOp → Bool
  | .polygon .. => true
  | .tween .. | .skip .. => false

def isSkip : DrawOp → Bool
  | .skip .. => true
  | .polygon .. | .tween .. => false

theorem isSome_shape? (op : DrawOp) :
    (op.shape? revision data).isSome = (op.isPolygon || op.resolves revision data) := by
  cases op with
  | polygon => rfl
  | tween _ _ _ ref =>
    simp only [shape?, isPolygon, resolves]
    cases hpolygon : Tween.polygon revision data ref <;> rfl
  | skip => rfl

theorem isNone_shape? (op : DrawOp) :
    (op.shape? revision data).isNone = (op.isSkip || (op.refused? revision data).isSome) := by
  cases op with
  | polygon => rfl
  | tween _ _ _ ref =>
    simp only [shape?, isSkip, refused?]
    cases hpolygon : Tween.polygon revision data ref <;> rfl
  | skip => rfl

theorem countP_or_of_disjoint {p q : DrawOp → Bool} (h : ∀ op, p op → q op = false)
    (ops : List DrawOp) : (ops.countP fun op => p op || q op) = ops.countP p + ops.countP q := by
  induction ops with
  | nil => rfl
  | cons op rest ih =>
    rw [List.countP_cons, List.countP_cons, List.countP_cons, ih]
    cases hp : p op with
    | true =>
      rw [h op hp]
      simp
      omega
    | false => simp [Nat.add_assoc]

theorem countP_shape? (ops : List DrawOp) :
    (ops.countP fun op => (op.shape? revision data).isSome) =
      ops.countP isPolygon + ops.countP (resolves revision data) := by
  simp only [isSome_shape?]
  refine countP_or_of_disjoint (fun op hpolygon => ?_) ops
  cases op with
  | polygon => rfl
  | tween | skip => cases hpolygon

theorem countP_shape?_eq_none (ops : List DrawOp) :
    (ops.countP fun op => (op.shape? revision data).isNone) =
      ops.countP isSkip + (ops.filterMap (refused? revision data)).length := by
  simp only [isNone_shape?, List.length_filterMap_eq_countP]
  refine countP_or_of_disjoint (fun op hskip => ?_) ops
  cases op with
  | skip => rfl
  | polygon | tween => cases hskip

end DrawOp

end Bitplane
