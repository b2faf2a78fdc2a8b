import Bitplane.Proofs.Compositor.Viewport
import Bitplane.Proofs.Renderer.Persistence

/-! # Histories of planes

Whatever is done to the planes of a store, one after another and in whole frames, each keeps
its number and stays tidy. So the planes never get into each other's bits, and an index has
no bit beyond the last plane. A buffer is as large as its plane says as long as a word can
count its bytes.
-/

namespace Bitplane

namespace Plane

inductive Operation where
  | fill (rasterizer : Rasterizer) (vertices : List Vertex) (clear : Bool)
  | xorPixel (x y : Int)
  | xorSpan (y x₀ x₁ : Int)
  | clear
  | scroll (x y : Nat)
  /-- Starts anew with a dark plane of another geometry. -/
  | replace (width height stride : Nat)

def perform (p : Plane) : Operation → Plane
  | .fill rasterizer vertices clear => (rasterizer.fill p vertices clear).1
  | .xorPixel x y => p.xorPixel x y
  | .xorSpan y x₀ x₁ => p.xorSpan y x₀ x₁
  | .clear => p.clear
  | .scroll x y => p.scroll x y
  | .replace width height stride => dark p.index width height stride

/-- Changes that keep the number of a plane and leave a tidy plane tidy. -/
structure Keeps (f : Plane → Plane) : Prop where
  index_eq : ∀ p, (f p).index = p.index
  tidy : ∀ p : Plane, p.Tidy → (f p).Tidy

theorem keeps_id : Keeps id := ⟨fun _ => rfl, fun _ => id⟩

theorem keeps_clear : Keeps clear := ⟨fun _ => rfl, fun p _ => p.isDark_clear.tidy⟩

theorem keeps_redraw (placement : Placement) (shapes : List Polygon) :
    Keeps (redraw placement shapes) :=
  ⟨fun p => congrArg Geometry.index (p.geometry_redraw ..), fun _ h => h.redraw placement shapes⟩

theorem keeps_perform (op : Operation) : Keeps (·.perform op) := by
  cases op with
  | fill z vertices clear =>
    simp only [perform, Rasterizer.fill_fst]
    exact ⟨fun p => congrArg Geometry.index (p.geometry_fill z.placement vertices clear),
      fun _ h => h.fill z.placement vertices clear⟩
  | xorPixel x y =>
    simp only [perform, xorPixel_eq_xorSpan]
    exact ⟨fun _ => rfl, fun _ h => h.xorSpans [⟨y, x, x⟩]⟩
  | xorSpan y x₀ x₁ => exact ⟨fun _ => rfl, fun _ h => h.xorSpans [⟨y, x₀, x₁⟩]⟩
  | clear => exact keeps_clear
  | scroll x y => exact ⟨fun _ => rfl, fun _ h => h.scroll x y⟩
  | replace => exact ⟨fun _ => rfl, fun _ _ => (isDark_dark _ _ _ _).tidy⟩

end Plane

namespace PlaneStore

inductive Operation where
  /-- Changes one plane, if it exists. -/
  | change (plane : UInt8) (op : Plane.Operation)
  | clearAll
  /-- Draws a frame, by a renderer that has been given the store. -/
  | draw (r : Renderer) (consistent : r.revision.validate = .ok ()) (frame : Nat)

def perform (s : PlaneStore) : Operation → PlaneStore
  | .change plane op =>
    match s.modify plane (·.perform op) with
    | .ok changed => changed
    | .error _ => s
  | .clearAll => s.clearAll
  | .draw r _ frame => ({ r with planes := s }.draw frame).renderer.planes

def performAll (s : PlaneStore) (ops : List Operation) : PlaneStore := ops.foldl perform s

theorem tidy_dark {count : Nat} (hcount : count ≤ 8) (width height stride : Nat) :
    (dark count width height stride).Tidy := by
  have hplane : ∀ n p, (dark count width height stride).planes[n]? = some p →
      n < count ∧ p = Plane.dark (UInt8.ofNat n) width height stride := by
    intro n p hp
    rw [dark, Array.getElem?_ofFn] at hp
    split at hp
    case isTrue hn => exact ⟨hn, (Option.some.inj hp).symm⟩
    case isFalse => cases hp
  refine ⟨?_, ?_, ?_⟩
  · exact Nat.le_trans (Nat.le_of_eq Array.size_ofFn) hcount
  · intro n p hp
    obtain ⟨hn, rfl⟩ := hplane n p hp
    rw [Plane.dark, UInt8.toNat_ofNat']
    omega
  · intro n p hp
    obtain ⟨-, rfl⟩ := hplane n p hp
    exact (Plane.isDark_dark _ _ _ _).tidy

variable (s : PlaneStore)

/-- What an operation does to the planes, it does to each by itself. -/
theorem exists_keeps_perform (op : Operation) (n : Nat) :
    ∃ f, Plane.Keeps f ∧ (s.perform op).planes[n]? = s.planes[n]?.map f := by
  cases op with
  | change plane op =>
    simp only [perform, modify, get]
    cases hp : s.planes[plane.toNat]? with
    | none => exact ⟨id, Plane.keeps_id, by simp [Except.map]⟩
    | some p =>
      simp only [Except.map]
      rw [set_eq_modify hp (·.perform op), Array.getElem?_modify]
      split
      · exact ⟨_, Plane.keeps_perform op, rfl⟩
      · exact ⟨id, Plane.keeps_id, by simp⟩
  | clearAll => exact ⟨_, Plane.keeps_clear, Array.getElem?_map⟩
  | draw r consistent frame =>
    have hconsistent := Revision.validate_eq_ok_iff.mp consistent
    exact ⟨_, Plane.keeps_redraw _ _,
      @Renderer.getElem?_planes_draw { r with planes := s } hconsistent frame n⟩

variable {s}

theorem size_perform (op : Operation) : (s.perform op).size = s.size := by
  have hnone (n : Nat) : (s.perform op).planes[n]? = none ↔ s.planes[n]? = none := by
    obtain ⟨f, -, hget⟩ := s.exists_keeps_perform op n
    rw [hget, Option.map_eq_none_iff]
  simp only [Array.getElem?_eq_none_iff] at hnone
  exact Nat.le_antisymm ((hnone _).mpr (Nat.le_refl _)) ((hnone _).mp (Nat.le_refl _))

theorem Tidy.perform (h : s.Tidy) (op : Operation) : (s.perform op).Tidy := by
  have hplane : ∀ (n : Nat) (p : Plane), (s.perform op).planes[n]? = some p →
      ∃ f q, Plane.Keeps f ∧ s.planes[n]? = some q ∧ f q = p := by
    intro n p hp
    obtain ⟨f, hf, hget⟩ := s.exists_keeps_perform op n
    obtain ⟨q, hq, hfq⟩ := Option.map_eq_some_iff.mp (hget.symm.trans hp)
    exact ⟨f, q, hf, hq, hfq⟩
  refine ⟨?_, ?_, ?_⟩
  · rw [size_perform]
    exact h.size_le
  · intro n p hp
    obtain ⟨f, q, hf, hq, rfl⟩ := hplane n p hp
    rw [hf.index_eq]
    exact h.index_eq n q hq
  · intro n p hp
    obtain ⟨f, q, hf, hq, rfl⟩ := hplane n p hp
    exact hf.tidy q (h.tidy n q hq)

theorem size_performAll (ops : List Operation) : (s.performAll ops).size = s.size := by
  induction ops generalizing s with
  | nil => rfl
  | cons op rest ih => exact ih.trans (size_perform op)

theorem Tidy.performAll (h : s.Tidy) (ops : List Operation) : (s.performAll ops).Tidy := by
  induction ops generalizing s with
  | nil => exact h
  | cons op rest ih => exact ih (h.perform op)

end PlaneStore

end Bitplane
