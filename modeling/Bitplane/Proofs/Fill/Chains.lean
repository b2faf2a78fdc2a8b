import Bitplane.Proofs.Fill.Crossing
import Bitplane.Rasterizer

/-! # The chains of the edge table

The table leads from each row to the edges that start there. It is built by putting
edge after edge in front of the chain of its row, so a chain holds the numbers of
its edges with the last one first.
-/

namespace Bitplane

/-- The numbers of the edges with a property, in the order of the outline. -/
def numbersOf (edges : List Edge) (p : Edge → Bool) : List Nat :=
  (List.range edges.length).filter fun i => edges[i]?.any p

section Numbers

variable {edges : List Edge} {p q : Edge → Bool} {i : Nat}

theorem mem_numbersOf : i ∈ numbersOf edges p ↔ ∃ e, edges[i]? = some e ∧ p e := by
  rw [numbersOf, List.mem_filter, List.mem_range, Option.any_eq_true]
  constructor
  · exact And.right
  · rintro ⟨e, he, hp⟩
    exact ⟨(List.getElem?_eq_some_iff.mp he).1, e, he, hp⟩

theorem nodup_numbersOf : (numbersOf edges p).Nodup := List.nodup_range.filter _

theorem length_numbersOf_le : (numbersOf edges p).length ≤ edges.length :=
  (List.length_filter_le ..).trans_eq List.length_range

theorem numbersOf_congr (h : ∀ e ∈ edges, p e = q e) : numbersOf edges p = numbersOf edges q := by
  refine List.filter_congr fun i hi => ?_
  rw [List.getElem?_eq_getElem (List.mem_range.mp hi)]
  exact h _ (List.getElem_mem _)

theorem filter_numbersOf {s : Nat → Bool} (h : ∀ i e, edges[i]? = some e → s i = q e) :
    (numbersOf edges p).filter s = numbersOf edges fun e => q e && p e := by
  rw [numbersOf, List.filter_filter]
  refine List.filter_congr fun i hi => ?_
  have hget := List.getElem?_eq_getElem (List.mem_range.mp hi)
  rw [h i _ hget, hget]
  rfl

theorem numbersOf_perm_append :
    (numbersOf edges (fun e => q e && p e) ++ numbersOf edges fun e => !q e && p e).Perm
      (numbersOf edges p) := by
  have h := List.filter_append_perm (fun i => edges[i]?.any q) (numbersOf edges p)
  rwa [filter_numbersOf (q := q) fun i e he => by rw [he]; rfl,
    filter_numbersOf (q := fun e => !q e) fun i e he => by rw [he]; rfl] at h

theorem filterMap_numbersOf : (numbersOf edges p).filterMap (edges[·]?) = edges.filter p := by
  induction edges with
  | nil => rfl
  | cons e rest ih =>
    have hrest : (((List.range rest.length).map Nat.succ).filter
        fun i => (e :: rest)[i]?.any p).filterMap ((e :: rest)[·]?) = rest.filter p := by
      rw [← ih, numbersOf, List.filter_map, List.filterMap_map]
      rfl
    rw [numbersOf, List.length_cons, List.range_succ_eq_map, List.filter_cons, List.filter_cons]
    by_cases hp : p e
    · rw [if_pos (by exact hp), if_pos hp]
      exact congrArg (e :: ·) hrest
    · rw [if_neg (by exact hp), if_neg hp]
      exact hrest

theorem length_numbersOf : (numbersOf edges p).length = edges.countP p := by
  rw [List.countP_eq_length_filter, ← filterMap_numbersOf, List.filterMap_length_eq_length.mpr]
  intro i hi
  obtain ⟨e, he, -⟩ := mem_numbersOf.mp hi
  exact Option.isSome_iff_exists.mpr ⟨e, he⟩

theorem pairwise_reverse_numbersOf : (numbersOf edges p).reverse.Pairwise (· > ·) :=
  List.pairwise_reverse.mpr (List.pairwise_lt_range.filter _)

end Numbers

structure InRows (edges : List Edge) (top bottom : Int) : Prop where
  top_le : ∀ e ∈ edges, top ≤ e.top.y
  le_bottom : ∀ e ∈ edges, e.bottom.y ≤ bottom
  top_lt_bottom : top < bottom

theorem inRows_of_rowRange? {edges : List Edge} {top bottom : Int}
    (h : rowRange? edges = some (top, bottom)) : InRows edges top bottom := by
  unfold rowRange? at h
  split at h
  case h_1 top' bottom' htop hbottom =>
    obtain ⟨rfl, rfl⟩ := Prod.mk.inj (Option.some.inj h)
    have hle : ∀ e ∈ edges, e.bottom.y ≤ bottom' := fun e he =>
      (List.max?_eq_some_iff.mp hbottom).2 _ (List.mem_map_of_mem he)
    obtain ⟨hmem, hmin⟩ := List.min?_eq_some_iff.mp htop
    obtain ⟨e, he, rfl⟩ := List.mem_map.mp hmem
    exact ⟨fun e he => hmin _ (List.mem_map_of_mem he), hle,
      lt_of_lt_of_le e.top_lt_bottom (hle e he)⟩
  case h_2 => simp at h

theorem exists_of_rowRange? {edges : List Edge} {top bottom : Int}
    (h : rowRange? edges = some (top, bottom)) :
    (∃ e ∈ edges, e.top.y = top) ∧ ∃ e ∈ edges, e.bottom.y = bottom := by
  unfold rowRange? at h
  split at h
  case h_1 htop hbottom =>
    cases h
    exact ⟨List.mem_map.mp (List.min?_mem htop), List.mem_map.mp (List.max?_mem hbottom)⟩
  case h_2 => cases h

theorem eq_nil_of_rowRange? {edges : List Edge} (h : rowRange? edges = none) : edges = [] := by
  unfold rowRange? at h
  split at h
  case h_1 => simp at h
  case h_2 hne =>
    by_contra hcons
    obtain ⟨top, htop⟩ := Option.isSome_iff_exists.mp
      (List.isSome_min?_of_ne_nil (l := edges.map (·.top.y)) (by simpa using hcons))
    obtain ⟨bottom, hbottom⟩ := Option.isSome_iff_exists.mp
      (List.isSome_max?_of_ne_nil (l := edges.map (·.bottom.y)) (by simpa using hcons))
    exact hne top bottom htop hbottom

namespace Rasterizer

/-- The numbers of a chain, from its first edge on. -/
inductive Chained (edges : Array LinkedEdge) : Option Nat → List Nat → Prop where

  | nil : Chained edges none []

  | cons {i : Nat} {e : LinkedEdge} {rest : List Nat} : edges[i]? = some e →
      Chained edges e.next rest → Chained edges (some i) (i :: rest)

variable {edges edges' : Array LinkedEdge} {first : Option Nat} {numbers : List Nat}

theorem Chained.chain_eq (h : Chained edges first numbers) {fuel : Nat}
    (hfuel : numbers.length ≤ fuel) : chain edges fuel first = numbers := by
  induction h generalizing fuel with
  | nil => exact chain.eq_1 ..
  | @cons i e rest he _ ih =>
    obtain ⟨fuel, rfl⟩ := Nat.exists_eq_succ_of_ne_zero (Nat.ne_of_gt (Nat.zero_lt_of_lt hfuel))
    rw [chain, he]
    exact congrArg (i :: ·) (ih (Nat.le_of_succ_le_succ hfuel))

theorem Chained.congr (h : Chained edges first numbers)
    (heq : ∀ i ∈ numbers, edges'[i]?.map (·.next) = edges[i]?.map (·.next)) :
    Chained edges' first numbers := by
  induction h with
  | nil => exact .nil
  | @cons i e rest he _ ih =>
    have hi := heq i List.mem_cons_self
    rw [he, Option.map_some] at hi
    obtain ⟨e', he', hnext⟩ := Option.map_eq_some_iff.mp hi
    exact .cons he' (hnext ▸ ih fun j hj => heq j (List.mem_cons_of_mem _ hj))

/-- The numbers below `count` of the edges that start on the row of a slot. -/
def slotNumbers (edges : List Edge) (top : Int) (count slot : Nat) : List Nat :=
  (List.range count).filter fun i => edges[i]?.any fun e => (e.top.y - top).toNat = slot

theorem slotNumbers_succ {edges : List Edge} {count : Nat} {e : Edge} (he : edges[count]? = some e)
    (top : Int) (slot : Nat) :
    slotNumbers edges top (count + 1) slot = slotNumbers edges top count slot ++
      if (e.top.y - top).toNat = slot then [count] else [] := by
  rw [slotNumbers, List.range_succ, List.filter_append, List.filter_singleton, he]
  simp [slotNumbers]

theorem getD_setIfInBounds {α : Type} (xs : Array α) (a d : α) {i j : Nat} (h : j < xs.size) :
    (xs.setIfInBounds i a).getD j d = if i = j then a else xs.getD j d := by
  rw [Array.getD_eq_getD_getElem?, Array.getElem?_setIfInBounds, Array.getD_eq_getD_getElem?]
  split
  case isTrue hij => rw [if_pos (hij ▸ h), Option.getD_some]
  case isFalse => rfl

/-- The buffers of an outline, of which the first `count` edges are linked. -/
structure Linked (edges : List Edge) (top bottom : Int) (count : Nat) (z : Rasterizer) : Prop where
  crossing_eq : ∀ i : Nat, z.edges[i]?.map LinkedEdge.toCrossing = edges[i]?.map Crossing.enter
  size_table : z.table.size = (bottom - top).toNat + 1
  chained : ∀ slot < z.table.size,
    Chained z.edges (z.table.getD slot none) (slotNumbers edges top count slot).reverse
  active_eq : z.active = []

section Build

variable {edges : List Edge} {top bottom : Int} {count : Nat} {z : Rasterizer}

theorem link_eq {e : LinkedEdge} {i : Nat} (he : z.edges[i]? = some e) :
    z.link top i =
      { z with
        edges := z.edges.modify i fun e' =>
          { e' with next := z.table.getD (e.edge.top.y - top).toNat none }
        table := z.table.setIfInBounds (e.edge.top.y - top).toNat (some i) } := by
  rw [link, he]

theorem Linked.link (h : Linked edges top bottom count z) (hcount : count < edges.length) :
    Linked edges top bottom (count + 1) (z.link top count) := by
  have hget := List.getElem?_eq_getElem hcount
  have hcrossing := h.crossing_eq count
  rw [hget, Option.map_some] at hcrossing
  obtain ⟨e, he, henter⟩ := Option.map_eq_some_iff.mp hcrossing
  have hedge : e.edge = edges[count] := congrArg Crossing.edge henter
  rw [link_eq he]
  refine ⟨fun i => ?_, ?_, fun slot hslot => ?_, h.active_eq⟩
  · rw [← h.crossing_eq i]
    dsimp only
    rw [Array.getElem?_modify]
    split
    · rw [Option.map_map]
      rfl
    · rfl
  · exact Array.size_setIfInBounds.trans h.size_table
  · dsimp only at hslot ⊢
    rw [Array.size_setIfInBounds] at hslot
    have hold : Chained (z.edges.modify count fun e' =>
        { e' with next := z.table.getD (e.edge.top.y - top).toNat none })
        (z.table.getD slot none) (slotNumbers edges top count slot).reverse := by
      refine (h.chained slot hslot).congr fun i hi => ?_
      have hlt := List.mem_range.mp (List.mem_filter.mp (List.mem_reverse.mp hi)).1
      rw [Array.getElem?_modify, if_neg hlt.ne']
    rw [slotNumbers_succ hget, ← hedge, List.reverse_append, getD_setIfInBounds _ _ _ hslot]
    by_cases hs : (e.edge.top.y - top).toNat = slot
    · -- the new edge points to what was first
      rw [if_pos hs, if_pos hs]
      refine .cons (e := { e with next := z.table.getD (e.edge.top.y - top).toNat none }) ?_
        (hs ▸ hold)
      rw [Array.getElem?_modify, if_pos rfl, he]
      rfl
    · rw [if_neg hs, if_neg hs]
      exact hold

theorem linked_start (z : Rasterizer) (edges : List Edge) (top bottom : Int) :
    Linked edges top bottom 0
      { z with
        edges := (edges.map fun e => ⟨.enter e, none⟩).toArray
        table := Array.replicate ((bottom - top).toNat + 1) none
        active := [] } := by
  refine ⟨fun i => ?_, Array.size_replicate, fun slot hslot => ?_, rfl⟩
  · simp [Function.comp_def]
  · replace hslot : slot < (bottom - top).toNat + 1 := by simpa using hslot
    simpa [Array.getD_eq_getD_getElem?, hslot, slotNumbers] using Chained.nil

theorem Linked.foldl_link (h : Linked edges top bottom 0 z) (hcount : count ≤ edges.length) :
    Linked edges top bottom count ((List.range count).foldl (fun z i => z.link top i) z) := by
  induction count with
  | zero => exact h
  | succ count ih =>
    rw [List.range_succ, List.foldl_append]
    exact (ih (Nat.le_of_succ_le hcount)).link hcount

theorem linked_build (z : Rasterizer) (edges : List Edge) (top bottom : Int) :
    Linked edges top bottom edges.length (z.build edges top bottom) :=
  (linked_start z edges top bottom).foldl_link le_rfl

/-- The chain of a row holds the edges that start there. -/
theorem Linked.chained_row (h : Linked edges top bottom edges.length z)
    (hrows : InRows edges top bottom) {row : Int} (htop : top ≤ row) (hbottom : row ≤ bottom) :
    Chained z.edges (z.table.getD (row - top).toNat none)
      (numbersOf edges fun e => e.top.y = row).reverse := by
  have hslot : (row - top).toNat < z.table.size := by
    rw [h.size_table]
    omega
  have hnumbers : slotNumbers edges top edges.length (row - top).toNat =
      numbersOf edges fun e => e.top.y = row := by
    refine numbersOf_congr fun e he => ?_
    have := hrows.top_le e he
    rw [decide_eq_decide]
    omega
  exact hnumbers ▸ h.chained _ hslot

end Build

end Rasterizer

end Bitplane
