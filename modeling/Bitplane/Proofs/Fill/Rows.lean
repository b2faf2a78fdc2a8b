import Bitplane.Proofs.Fill.Chains
import Bitplane.Proofs.Fill.Scan
import Mathlib.Data.Int.Order.Basic

/-! # The rows of a sweep

On each row the sweep holds every edge that crosses the row exactly once, each at
its exact place, in scan order. The invariant comes down the rows: what a row
leaves for the next one are the edges that start above and do not end before it.
-/

namespace Bitplane

section Stable

variable {α : Type} {le : α → α → Bool} {R : α → α → Prop} {l : List α}

theorem pairwise_mergeSort_tie (trans : ∀ a b c, le a b → le b c → le a c)
    (total : ∀ a b, le a b || le b a) (h : l.Pairwise R) :
    (l.mergeSort le).Pairwise fun a b => le a b ∧ (le b a → R a b) := by
  have hsorted := List.pairwise_mergeSort trans total l
  refine List.pairwise_iff_forall_sublist.mpr fun {a b} hab => ?_
  have hle : le a b := by simpa using hsorted.sublist hab
  refine ⟨hle, fun hba => ?_⟩
  -- the elements that tie with `a` are in their old order
  let tie : α → Bool := fun c => le a c && le c a
  have htie : (l.filter tie).Pairwise fun c d => le c d := by
    refine List.pairwise_iff_forall_sublist.mpr fun {c d} hcd => ?_
    have hc := (List.mem_filter.mp (hcd.subset (by simp : c ∈ [c, d]))).2
    have hd := (List.mem_filter.mp (hcd.subset (by simp : d ∈ [c, d]))).2
    simp only [tie, Bool.and_eq_true] at hc hd
    exact trans _ _ _ hc.2 hd.1
  have hsub := (List.sublist_mergeSort trans total htie List.filter_sublist).filter tie
  simp only [List.filter_filter, Bool.and_self] at hsub
  have heq := hsub.eq_of_length ((List.mergeSort_perm l le).filter tie).length_eq.symm
  have haa : le a a := by simpa using total a a
  have hpair := hab.filter tie
  rw [← heq] at hpair
  simp only [tie, List.filter_cons, haa, hle, hba, Bool.and_self, if_true,
    List.filter_nil] at hpair
  exact List.pairwise_iff_forall_sublist.mp h (hpair.trans List.filter_sublist)

end Stable

theorem getElem?_foldl_modify {α : Type} (f : α → α) {numbers : List Nat} (h : numbers.Nodup)
    (xs : Array α) (j : Nat) :
    (numbers.foldl (fun xs i => xs.modify i f) xs)[j]? =
      if j ∈ numbers then xs[j]?.map f else xs[j]? := by
  induction numbers generalizing xs with
  | nil => simp
  | cons i rest ih =>
    obtain ⟨hi, hrest⟩ := List.nodup_cons.mp h
    rw [List.foldl_cons, ih hrest, Array.getElem?_modify]
    by_cases hj : i = j
    · subst hj
      simp [hi]
    · simp [hj, Ne.symm hj]

def crossingOn (y : Int) (e : Edge) : Crossing := ⟨e, e.numerator y⟩

theorem place_crossingOn (y : Int) (e : Edge) : (crossingOn y e).place = e.column y := by
  have hdy : (e.dy : ℚ) ≠ 0 := by exact_mod_cast e.dy_pos.ne'
  exact ((eq_div_iff hdy).mpr (e.column_mul_dy y)).symm

namespace Rasterizer

/-- The buffers before row `y` of an outline: the table is as it was built, each edge is
where it crosses the row or the first one below that it crosses, and those that come down
from above are active. -/
structure Ready (edges : List Edge) (top bottom y : Int) (z : Rasterizer) : Prop where
  edge_eq : ∀ i : Nat, z.edges[i]?.map (·.edge) = edges[i]?
  num_eq : ∀ (i : Nat) (c : LinkedEdge), z.edges[i]? = some c → y ≤ c.edge.bottom.y →
    c.num = c.edge.numerator (max y c.edge.top.y)
  chained : ∀ row, top ≤ row → row ≤ bottom →
    Chained z.edges (z.table.getD (row - top).toNat none)
      (numbersOf edges fun e => e.top.y = row).reverse
  active_perm : z.active.Perm (numbersOf edges fun e => e.top.y < y ∧ y ≤ e.bottom.y)

theorem trans_le (z : Rasterizer) (i j k : Nat) : z.le i j → z.le j k → z.le i k := by
  unfold le
  cases z.edges[i]? <;> cases z.edges[j]? <;> cases z.edges[k]? <;>
    simp only [Option.isNone_none, Option.isNone_some, Bool.false_eq_true, Crossing.le_iff,
      false_implies, implies_true]
  exact le_trans

theorem total_le (z : Rasterizer) (i j : Nat) : z.le i j || z.le j i := by
  rw [Bool.or_eq_true]
  unfold le
  cases z.edges[i]? <;> cases z.edges[j]? <;>
    simp only [Option.isNone_none, Option.isNone_some, Bool.false_eq_true, Crossing.le_iff,
      or_true, true_or]
  exact le_total _ _

variable {edges : List Edge} {top bottom y : Int} {z : Rasterizer}

theorem Linked.ready (h : Linked edges top bottom edges.length z)
    (hrows : InRows edges top bottom) : Ready edges top bottom top z := by
  have hget (i : Nat) : z.edges[i]?.map (·.edge) = edges[i]? := by
    have hmap := congrArg (Option.map Crossing.edge) (h.crossing_eq i)
    rw [Option.map_map, Option.map_map] at hmap
    exact hmap.trans Option.map_id'
  refine ⟨hget, fun i c hc _ => ?_, fun row => h.chained_row hrows, ?_⟩
  · have hcrossing := h.crossing_eq i
    rw [hc, Option.map_some] at hcrossing
    obtain ⟨e, he, hce⟩ := Option.map_eq_some_iff.mp hcrossing.symm
    have htop := hrows.top_le e (List.mem_of_getElem? he)
    have hedge : c.edge = e := congrArg Crossing.edge hce.symm
    have hnum : c.num = e.top.x * e.dy := congrArg Crossing.num hce.symm
    rw [hedge, max_eq_right htop, Edge.numerator_top, hnum]
  · have hnone : numbersOf edges (fun e => e.top.y < top ∧ top ≤ e.bottom.y) = [] := by
      refine List.filter_eq_nil_iff.mpr fun i hi => ?_
      rw [List.getElem?_eq_getElem (List.mem_range.mp hi)]
      have := hrows.top_le _ (List.getElem_mem (List.mem_range.mp hi))
      simp only [Option.any_some, decide_eq_true_eq]
      omega
    rw [h.active_eq, hnone]

section Row

variable (h : Ready edges top bottom y z)

include h

theorem Ready.getElem?_eq {i : Nat} {e : Edge} (he : edges[i]? = some e) :
    ∃ c, z.edges[i]? = some c ∧ c.edge = e :=
  Option.map_eq_some_iff.mp ((h.edge_eq i).trans he)

theorem Ready.size_eq : z.edges.size = edges.length := by
  have hlist : z.edges.toList.map (·.edge) = edges :=
    List.ext_getElem? fun i => by rw [List.getElem?_map, Array.getElem?_toList, h.edge_eq]
  rw [← hlist, List.length_map, Array.length_toList]

theorem Ready.stay_perm : (z.active.filter (z.stays y)).Perm
    (numbersOf edges fun e => e.top.y < y && e.Crosses y) := by
  refine (h.active_perm.filter _).trans (.of_eq ?_)
  rw [filter_numbersOf (q := fun e => e.bottom.y != y)]
  · refine numbersOf_congr fun e _ => ?_
    rw [Bool.eq_iff_iff]
    simp only [Bool.and_eq_true, bne_iff_ne, decide_eq_true_eq]
    simp only [Edge.Crosses]
    omega
  · intro i e he
    obtain ⟨c, hc, rfl⟩ := h.getElem?_eq he
    rw [stays, hc]
    rfl

theorem Ready.pairwise_starts : (z.active.filter (z.stays y) ++
    (numbersOf edges fun e => e.top.y = y).reverse).Pairwise
      fun i j => edges[i]?.any (·.top.y = y) → edges[j]?.any (·.top.y = y) := by
  have hold : ∀ i ∈ z.active.filter (z.stays y), ¬edges[i]?.any (·.top.y = y) := by
    intro i hi
    obtain ⟨e, he, hlt⟩ := mem_numbersOf.mp (h.stay_perm.subset hi)
    rw [Bool.and_eq_true, decide_eq_true_eq] at hlt
    rw [he, Option.any_some, decide_eq_true_eq]
    exact hlt.1.ne
  have hnew : ∀ i ∈ (numbersOf edges fun e => e.top.y = y).reverse,
      edges[i]?.any (·.top.y = y) := by
    intro i hi
    obtain ⟨e, he, hrow⟩ := mem_numbersOf.mp (List.mem_reverse.mp hi)
    rw [he]
    exact hrow
  refine List.pairwise_append.mpr ⟨?_, ?_, fun _ _ j hj _ => hnew j hj⟩
  · exact List.pairwise_of_forall_mem_list fun i hi _ _ hs => absurd hs (hold i hi)
  · exact List.pairwise_of_forall_mem_list fun _ _ j hj _ => hnew j hj

variable (htop : top ≤ y) (hbottom : y ≤ bottom)

include htop hbottom

theorem Ready.entering_eq : chain z.edges z.edges.size (z.table.getD (y - top).toNat none) =
    (numbersOf edges fun e => e.top.y = y).reverse := by
  refine (h.chained y htop hbottom).chain_eq ?_
  rw [List.length_reverse, h.size_eq]
  exact length_numbersOf_le

/-- A row holds the edges that cross it, each once. -/
theorem Ready.activate_perm :
    (z.activate top y).active.Perm (numbersOf edges fun e => e.Crosses y) := by
  have hstart : (numbersOf edges fun e => e.top.y = y) =
      numbersOf edges fun e => !decide (e.top.y < y) && e.Crosses y := by
    refine numbersOf_congr fun e _ => ?_
    have := e.top_lt_bottom
    rw [Bool.eq_iff_iff]
    simp only [Bool.and_eq_true, Bool.not_eq_true', decide_eq_false_iff_not, decide_eq_true_eq]
    simp only [Edge.Crosses]
    omega
  rw [activate, h.entering_eq htop hbottom]
  refine (List.mergeSort_perm _ _).trans ((h.stay_perm.append (List.reverse_perm _)).trans ?_)
  rw [hstart]
  exact numbersOf_perm_append

theorem Ready.mem_active_iff {i : Nat} {c : LinkedEdge} (hc : z.edges[i]? = some c) :
    i ∈ (z.activate top y).active ↔ c.edge.Crosses y := by
  have he : edges[i]? = some c.edge := by rw [← h.edge_eq, hc, Option.map_some]
  rw [(h.activate_perm htop hbottom).mem_iff, mem_numbersOf]
  constructor
  · rintro ⟨e, he', hcross⟩
    obtain rfl : c.edge = e := Option.some.inj (he.symm.trans he')
    exact of_decide_eq_true hcross
  · intro hcross
    exact ⟨c.edge, he, decide_eq_true hcross⟩

theorem Ready.num_of_mem_active {i : Nat} {c : LinkedEdge} (hc : z.edges[i]? = some c)
    (hi : i ∈ (z.activate top y).active) : c.num = c.edge.numerator y := by
  have hcross : c.edge.top.y ≤ y ∧ y < c.edge.bottom.y :=
    (h.mem_active_iff htop hbottom hc).mp hi
  rw [h.num_eq i c hc hcross.2.le, max_eq_left hcross.1]

theorem Ready.crossings_perm : (z.crossings (z.activate top y).active).Perm
    ((edges.filter fun e => e.Crosses y).map (crossingOn y)) := by
  have hplace : z.crossings (z.activate top y).active =
      ((z.activate top y).active.filterMap (edges[·]?)).map (crossingOn y) := by
    rw [List.map_filterMap, crossings]
    refine List.filterMap_congr fun i hi => ?_
    rw [← h.edge_eq]
    cases hc : z.edges[i]? with
    | none => rfl
    | some c =>
      rw [Option.map_some, Option.map_some, Option.map_some, crossingOn,
        ← h.num_of_mem_active htop hbottom hc hi]
  rw [hplace, ← filterMap_numbersOf]
  exact ((h.activate_perm htop hbottom).filterMap _).map _

theorem Ready.scanOrder : (z.crossings (z.activate top y).active).Pairwise (ScanOrder y) := by
  have hsorted := pairwise_mergeSort_tie z.trans_le z.total_le h.pairwise_starts
  rw [← h.entering_eq htop hbottom] at hsorted
  rw [crossings, List.pairwise_filterMap]
  refine hsorted.imp fun {i j} hij c hc d hd => ?_
  obtain ⟨c, hi, rfl⟩ := Option.map_eq_some_iff.mp hc
  obtain ⟨d, hj, rfl⟩ := Option.map_eq_some_iff.mp hd
  simp only [le, hi, hj, Crossing.le_iff, ← h.edge_eq, Option.map_some, Option.any_some,
    decide_eq_true_eq] at hij
  exact ⟨hij.1, fun hplace => hij.2 hplace.ge⟩

theorem Ready.getElem?_advance (i : Nat) : (z.activate top y).advance.edges[i]? =
    if i ∈ (z.activate top y).active then
      z.edges[i]?.map fun e => { e with toCrossing := e.toCrossing.advance }
    else z.edges[i]? :=
  getElem?_foldl_modify _ ((h.activate_perm htop hbottom).nodup_iff.mpr nodup_numbersOf) _ i

theorem Ready.advance : Ready edges top bottom (y + 1) (z.activate top y).advance := by
  have hactive := h.activate_perm htop hbottom
  have hget := h.getElem?_advance htop hbottom
  refine ⟨fun i => ?_, fun i c hc hle => ?_, fun row hrow hrow' => ?_, ?_⟩
  · rw [← h.edge_eq i, hget]
    split
    · rw [Option.map_map]
      rfl
    · rfl
  · -- an edge of the row moves one row down, any other waits at its top or has ended
    rw [hget] at hc
    split at hc
    case isTrue hi =>
      obtain ⟨c', hc', rfl⟩ := Option.map_eq_some_iff.mp hc
      have hcross : c'.edge.top.y ≤ y ∧ y < c'.edge.bottom.y :=
        (h.mem_active_iff htop hbottom hc').mp hi
      simp only [Crossing.advance, h.num_of_mem_active htop hbottom hc' hi]
      rw [max_eq_left (by omega), Edge.numerator_succ]
    case isFalse hi =>
      have hlt : y < c.edge.top.y := by
        rw [h.mem_active_iff htop hbottom hc] at hi
        simp only [Edge.Crosses] at hi
        omega
      rw [h.num_eq i c hc (by omega), max_eq_right hlt.le, max_eq_right hlt]
  · refine (h.chained row hrow hrow').congr fun i _ => ?_
    rw [hget]
    split
    · rw [Option.map_map]
      rfl
    · rfl
  · refine hactive.trans (.of_eq (numbersOf_congr fun e _ => ?_))
    rw [Bool.eq_iff_iff, decide_eq_true_eq, decide_eq_true_eq]
    simp only [Edge.Crosses]
    omega

end Row

end Rasterizer

end Bitplane
