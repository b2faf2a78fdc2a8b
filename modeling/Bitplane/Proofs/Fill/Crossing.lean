import Bitplane.Outline
import Mathlib.Algebra.Order.Field.Rat
import Mathlib.Algebra.Ring.Parity
import Mathlib.Tactic.FieldSimp
import Mathlib.Tactic.Ring

/-! # Crossings of an outline

An edge crosses the rows from its top to its bottom, the bottom left out, each at
an exact rational column. A closed polygon crosses every row an even number of
times. The coverage of a pixel is counted from the crossings of its row alone,
in no order.
-/

namespace Bitplane

namespace Edge

variable (e : Edge) (x y : Int)

/-- Whether an edge crosses row `y`: its rows are half-open. -/
def Crosses : Prop := e.top.y ≤ y ∧ y < e.bottom.y

instance : Decidable (e.Crosses y) := inferInstanceAs (Decidable (_ ∧ _))

/-- The exact column at which an edge crosses row `y`. -/
def column : ℚ :=
  e.top.x + (y - e.top.y) * (e.bottom.x - e.top.x) / (e.bottom.y - e.top.y)

/-- The column of an edge on row `y` in units of `1 / dy`. -/
def numerator : Int := e.top.x * e.dy + (y - e.top.y) * e.dx

theorem dy_pos : 0 < e.dy := by
  have := e.top_lt_bottom
  simp only [dy]
  omega

@[simp] theorem numerator_top : e.numerator e.top.y = e.top.x * e.dy := by simp [numerator]

theorem numerator_succ : e.numerator (y + 1) = e.numerator y + e.dx := by
  simp only [numerator]
  ring

theorem column_mul_dy : e.column y * e.dy = e.numerator y := by
  have hy : (e.bottom.y : ℚ) - e.top.y ≠ 0 := by
    exact_mod_cast sub_ne_zero.mpr (ne_of_gt e.top_lt_bottom)
  simp only [column, numerator, dy, dx]
  push_cast
  field_simp

section Ends

variable {e : Edge} {y left right : Int} (htop : e.top.y ≤ y) (hbottom : y ≤ e.bottom.y)

include htop hbottom

theorem numerator_le (htop' : e.top.x ≤ right) (hbottom' : e.bottom.x ≤ right) :
    e.numerator y ≤ right * e.dy := by
  have habove : 0 ≤ (right - e.top.x) * (e.bottom.y - y) :=
    Int.mul_nonneg (Int.sub_nonneg_of_le htop') (Int.sub_nonneg_of_le hbottom)
  have hbelow : 0 ≤ (right - e.bottom.x) * (y - e.top.y) :=
    Int.mul_nonneg (Int.sub_nonneg_of_le hbottom') (Int.sub_nonneg_of_le htop)
  have hsplit : right * e.dy - e.numerator y =
      (right - e.top.x) * (e.bottom.y - y) + (right - e.bottom.x) * (y - e.top.y) := by
    simp only [numerator, dy, dx]
    ring
  omega

theorem le_numerator (htop' : left ≤ e.top.x) (hbottom' : left ≤ e.bottom.x) :
    left * e.dy ≤ e.numerator y := by
  have habove : 0 ≤ (e.top.x - left) * (e.bottom.y - y) :=
    Int.mul_nonneg (Int.sub_nonneg_of_le htop') (Int.sub_nonneg_of_le hbottom)
  have hbelow : 0 ≤ (e.bottom.x - left) * (y - e.top.y) :=
    Int.mul_nonneg (Int.sub_nonneg_of_le hbottom') (Int.sub_nonneg_of_le htop)
  have hsplit : e.numerator y - left * e.dy =
      (e.top.x - left) * (e.bottom.y - y) + (e.bottom.x - left) * (y - e.top.y) := by
    simp only [numerator, dy, dx]
    ring
  omega

end Ends

end Edge

/-- The number of edges that cross row `y` left of column `x`. -/
def crossedLeft (edges : List Edge) (x y : Int) : Nat :=
  edges.countP fun e => e.Crosses y ∧ e.column y < (x : ℚ)

/-- The number of edges that cross row `y` at column `x` on their way down. -/
def crossedThrough (edges : List Edge) (x y : Int) : Nat :=
  edges.countP fun e => e.Crosses y ∧ e.top.y < y ∧ e.column y = (x : ℚ)

def startedAt (edges : List Edge) (x y : Int) : Nat :=
  edges.countP fun e => e.Crosses y ∧ e.top.y = y ∧ e.column y = (x : ℚ)

/-- How often a pixel is covered: with `a` crossings left of it and `b` at it,
`⌊(a + b + 1) / 2⌋ - ⌊a / 2⌋` times. Two edges that start at one place make no crossing. -/
def coverage (edges : List Edge) (x y : Int) : Nat :=
  let a := crossedLeft edges x y
  let b := crossedThrough edges x y + startedAt edges x y % 2
  (a + b + 1) / 2 - a / 2

section Closed

variable {α : Type} (f : α → Bool)

/-- Along a walk, a Boolean changes an odd number of times if its ends differ. -/
theorem countP_changes_walk (a z : α) (l : List α) :
    ((a :: l).zip (l ++ [z])).countP (fun p => f p.1 != f p.2) % 2 = (f a != f z).toNat := by
  induction l generalizing a with
  | nil => cases h : f a != f z <;> simp [h]
  | cons b l ih =>
    have hb := ih b
    rw [List.cons_append, List.zip_cons_cons, List.countP_cons]
    generalize ((b :: l).zip (l ++ [z])).countP _ = n at hb ⊢
    cases ha : f a <;> cases hc : f b <;> cases hz : f z <;> simp [hc, hz] at hb ⊢ <;> omega

theorem even_countP_changes (l : List α) :
    Even ((l.zip (l.tail ++ l.take 1)).countP fun p => f p.1 != f p.2) := by
  cases l with
  | nil => simp
  | cons a l =>
    have h := countP_changes_walk f a a l
    rw [bne_self_eq_false, Bool.toNat_false] at h
    exact Nat.even_iff.mpr h

end Closed

theorem Edge.between?_crosses (a b : Vertex) (y : Int) :
    ((Edge.between? a b).map fun e => decide (e.Crosses y)).getD false =
      (decide (a.y ≤ y) != decide (b.y ≤ y)) := by
  unfold Edge.between?
  split_ifs with hab hba
  · by_cases ha : a.y ≤ y <;> by_cases hb : b.y ≤ y <;> simp [Edge.Crosses, ha, hb] <;> omega
  · by_cases ha : a.y ≤ y <;> by_cases hb : b.y ≤ y <;> simp [Edge.Crosses, ha, hb] <;> omega
  · have h : a.y = b.y := by omega
    simp [h]

/-- A closed polygon crosses every row an even number of times. -/
theorem even_crosses (placement : Placement) (vertices : List Vertex) (y : Int) :
    Even ((outline placement vertices).countP fun e => e.Crosses y) := by
  rw [outline, List.countP_filterMap]
  simp only [Edge.between?_crosses]
  exact even_countP_changes (fun v : Vertex => decide (v.y ≤ y)) _

end Bitplane
