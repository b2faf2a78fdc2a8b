import Bitplane.Text.Blank
import Mathlib.Data.List.TakeWhile

/-! # Texts between blanks

Trimming takes off the blanks at both ends of a text, as many as there are, and nothing else.
-/

namespace Bitplane.Text

variable {cs core : List Char}

/-- Whether a text is another one between blanks. -/
def Framed (cs core : List Char) : Prop :=
  ∃ front back, cs = front ++ core ++ back ∧ (∀ c ∈ front, isBlank c) ∧ ∀ c ∈ back, isBlank c

theorem framed_trim (cs : List Char) : Framed cs (trim cs) := by
  have hsplit (ds : List Char) : ds = ds.takeWhile isBlank ++ ds.dropWhile isBlank :=
    List.takeWhile_append_dropWhile.symm
  have hblank {c : Char} {ds : List Char} (h : c ∈ ds.takeWhile isBlank) : isBlank c :=
    List.mem_takeWhile_imp h
  -- what follows the blanks in front, read from its end
  let rest := (cs.dropWhile isBlank).reverse
  refine ⟨cs.takeWhile isBlank, (rest.takeWhile isBlank).reverse, ?_, fun c => hblank,
    fun c hc => hblank (List.mem_reverse.mp hc)⟩
  rw [trim, List.append_assoc, ← List.reverse_append, ← hsplit, List.reverse_reverse, ← hsplit]

theorem Framed.trim_eq (h : Framed cs core) (hcore : ∀ c ∈ core, isBlank c = false) :
    trim cs = core := by
  obtain ⟨front, back, rfl, hfront, hback⟩ := h
  have hstays {ds : List Char} (hds : ∀ c ∈ ds, isBlank c = false) : ds.dropWhile isBlank = ds := by
    cases ds with
    | nil => rfl
    | cons d rest => exact List.dropWhile_cons_of_neg (by simp [hds d List.mem_cons_self])
  have hreverse : ∀ c ∈ core.reverse, isBlank c = false :=
    fun c hc => hcore c (List.mem_reverse.mp hc)
  have hends : ∀ c ∈ back.reverse, isBlank c := fun c hc => hback c (List.mem_reverse.mp hc)
  rw [trim, List.append_assoc, List.dropWhile_append_of_pos hfront]
  cases core with
  | nil =>
    have hgone : back.dropWhile isBlank = [] := List.dropWhile_eq_nil_iff.mpr hback
    rw [List.nil_append, hgone]
    rfl
  | cons d rest =>
    have hd : isBlank d = false := hcore d List.mem_cons_self
    rw [List.cons_append, List.dropWhile_cons_of_neg (by simp [hd]), ← List.cons_append,
      List.reverse_append, List.dropWhile_append_of_pos hends, hstays hreverse,
      List.reverse_reverse]

end Bitplane.Text
