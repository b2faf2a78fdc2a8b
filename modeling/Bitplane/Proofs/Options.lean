/-! # Options along a list

What a list of optional results comes to, when all of them are there, and what an array
becomes when an item that a look-up gave is put back changed.
-/

namespace Bitplane

variable {α β γ : Type} {as : List α} {f : α → Option β}

theorem mapM_eq_some_map {k : α → β} (h : ∀ a ∈ as, f a = some (k a)) :
    as.mapM f = some (as.map k) := by
  induction as with
  | nil => rfl
  | cons a rest ih =>
    rw [List.mapM_cons, h a List.mem_cons_self, ih fun b hb => h b (List.mem_cons_of_mem a hb)]
    rfl

theorem mapM_eq_some_filterMap (h : ∀ a ∈ as, (f a).isSome) :
    as.mapM f = some (as.filterMap f) := by
  induction as with
  | nil => rfl
  | cons a rest ih =>
    obtain ⟨b, hb⟩ := Option.isSome_iff_exists.mp (h a List.mem_cons_self)
    rw [List.mapM_cons, hb, ih fun c hc => h c (List.mem_cons_of_mem a hc),
      List.filterMap_cons_some hb]
    rfl

theorem exists_of_mem_mapM {bs : List β} {b : β} (h : as.mapM f = some bs) (hb : b ∈ bs) :
    ∃ a ∈ as, f a = some b := by
  induction as generalizing bs with
  | nil => simp_all
  | cons a rest ih =>
    simp only [List.mapM_cons, bind, Option.bind_eq_some_iff, pure, Option.some.injEq] at h
    obtain ⟨first, hfirst, more, hmore, rfl⟩ := h
    rcases List.mem_cons.mp hb with rfl | hb
    · exact ⟨a, List.mem_cons_self, hfirst⟩
    · obtain ⟨c, hc, hread⟩ := ih hmore hb
      exact ⟨c, List.mem_cons_of_mem a hc, hread⟩

theorem getElem?_filterMap_of_isSome (h : ∀ a ∈ as, (f a).isSome) (i : Nat) :
    (as.filterMap f)[i]? = as[i]?.bind f := by
  induction as generalizing i with
  | nil => rfl
  | cons a rest ih =>
    obtain ⟨b, hb⟩ := Option.isSome_iff_exists.mp (h a List.mem_cons_self)
    rw [List.filterMap_cons_some hb]
    cases i with
    | zero => exact hb.symm
    | succ i => exact ih (fun c hc => h c (List.mem_cons_of_mem _ hc)) i

theorem mapM_range_eq_some_map {g : Nat → Option β} {k : α → β}
    (h : ∀ i a, as[i]? = some a → g i = some (k a)) :
    (List.range as.length).mapM g = some (as.map k) := by
  have hget (i : Nat) (hi : i ∈ List.range as.length) : g i = (as.map k)[i]? := by
    have hsome := List.getElem?_eq_getElem (List.mem_range.mp hi)
    rw [h i _ hsome, List.getElem?_map, hsome, Option.map_some]
  have hisSome (i : Nat) (hi : i ∈ List.range as.length) : (g i).isSome := by
    rw [hget i hi, List.getElem?_map, List.getElem?_eq_getElem (List.mem_range.mp hi)]
    rfl
  rw [mapM_eq_some_filterMap hisSome]
  refine congrArg some (List.ext_getElem? fun i => ?_)
  rw [getElem?_filterMap_of_isSome hisSome]
  by_cases hi : i < as.length
  · rw [List.getElem?_range hi, Option.bind_some, hget i (List.mem_range.mpr hi)]
  · rw [List.getElem?_eq_none (by simpa using hi), List.getElem?_eq_none (by simpa using hi)]
    rfl

theorem setIfInBounds_eq_modify {xs : Array α} {i : Nat} {x : α} (h : xs[i]? = some x)
    (f : α → α) : xs.setIfInBounds i (f x) = xs.modify i f := by
  refine Array.ext_getElem? fun j => ?_
  rw [Array.getElem?_setIfInBounds, Array.getElem?_modify]
  split
  case isTrue heq =>
    subst heq
    rw [if_pos (Array.getElem?_eq_some_iff.mp h).1, h, Option.map_some]
  case isFalse => rfl

end Bitplane
