import Bitplane.Proofs.Fill.Crossing
import Bitplane.Proofs.Fill.Toggle
import Mathlib.Data.Rat.Floor
import Mathlib.Tactic.Linarith

/-! # Scanning a row

The crossings of a row are scanned in the order of their places, and of those at
one place the edges that start there come last. Then tips can be dropped before
the rest is paired up, and how often the spans cover a column is counted from
the places alone.
-/

namespace Bitplane

namespace Crossing

variable (c d : Crossing)

def place : ℚ := c.num / c.edge.dy

def StartsOn (y : Int) : Prop := c.edge.top.y = y

instance (y : Int) : Decidable (c.StartsOn y) := inferInstanceAs (Decidable (_ = _))

theorem place_le_iff (x : Int) : c.place ≤ x ↔ c.num ≤ x * c.edge.dy := by
  have hdy : (0 : ℚ) < c.edge.dy := by exact_mod_cast c.edge.dy_pos
  rw [place, div_le_iff₀ hdy]
  norm_cast

theorem le_place_iff (x : Int) : x ≤ c.place ↔ x * c.edge.dy ≤ c.num := by
  have hdy : (0 : ℚ) < c.edge.dy := by exact_mod_cast c.edge.dy_pos
  rw [place, le_div_iff₀ hdy]
  norm_cast

theorem le_iff : c.le d ↔ c.place ≤ d.place := by
  have hc : (0 : ℚ) < c.edge.dy := by exact_mod_cast c.edge.dy_pos
  have hd : (0 : ℚ) < d.edge.dy := by exact_mod_cast d.edge.dy_pos
  rw [place, place, div_le_div_iff₀ hc hd, le, decide_eq_true_eq]
  norm_cast

theorem meets_iff : c.meets d ↔ c.place = d.place := by
  have hc : (c.edge.dy : ℚ) ≠ 0 := by exact_mod_cast c.edge.dy_pos.ne'
  have hd : (d.edge.dy : ℚ) ≠ 0 := by exact_mod_cast d.edge.dy_pos.ne'
  rw [place, place, div_eq_div_iff hc hd, meets, beq_iff_eq]
  norm_cast

theorem le_roundDown_iff (x : Int) : x ≤ c.num / c.edge.dy ↔ x ≤ c.place := by
  rw [le_place_iff, Int.le_ediv_iff_mul_le c.edge.dy_pos]

theorem roundUp_le_iff (x : Int) :
    (if c.num % c.edge.dy = 0 then c.num / c.edge.dy else c.num / c.edge.dy + 1) ≤ x ↔
      c.place ≤ x := by
  have hdy := c.edge.dy_pos
  rw [place_le_iff]
  split_ifs with hr
  · rw [← Int.mul_le_mul_right hdy, Int.ediv_mul_cancel (Int.dvd_of_emod_eq_zero hr)]
  · rw [Int.add_one_le_iff, Int.ediv_lt_iff_lt_mul hdy]
    refine ⟨le_of_lt, fun h => lt_of_le_of_ne h fun he => hr ?_⟩
    rw [he, Int.mul_emod_left]

theorem roundDown_eq : c.num / c.edge.dy = ⌊c.place⌋ :=
  eq_of_forall_le_iff fun x => by rw [le_roundDown_iff, Int.le_floor]

theorem roundUp_eq :
    (if c.num % c.edge.dy = 0 then c.num / c.edge.dy else c.num / c.edge.dy + 1) = ⌈c.place⌉ :=
  eq_of_forall_ge_iff fun x => by rw [roundUp_le_iff, Int.ceil_le]

theorem ceil_le_iff {x : Int} (h₀ : 0 ≤ x) (h₁ : x < 2147483647) : c.ceil ≤ x ↔ c.place ≤ x := by
  rw [← roundUp_le_iff, ceil]
  simp only [clampCoordinate]
  omega

theorem le_floor_iff {x : Int} (h₀ : 0 ≤ x) (h₁ : x < 2147483647) :
    x ≤ c.floor ↔ x ≤ c.place := by
  rw [← le_roundDown_iff, floor]
  simp only [clampCoordinate]
  omega

theorem le_ceil {left : Int} (hplace : left ≤ c.place) (hleft : left ≤ 2147483647) :
    left ≤ c.ceil := by
  have hround : ¬(if c.num % c.edge.dy = 0 then c.num / c.edge.dy
      else c.num / c.edge.dy + 1) ≤ left - 1 := by
    have hlt : left - 1 < left := by omega
    rw [roundUp_le_iff, not_le]
    exact lt_of_lt_of_le (by exact_mod_cast hlt) hplace
  rw [ceil]
  simp only [clampCoordinate]
  omega

theorem floor_le {right : Int} (hplace : c.place ≤ right) (hright : -2147483648 ≤ right) :
    c.floor ≤ right := by
  have hround : ¬right + 1 ≤ c.num / c.edge.dy := by
    have hlt : right < right + 1 := by omega
    rw [le_roundDown_iff, not_le]
    exact lt_of_le_of_lt hplace (by exact_mod_cast hlt)
  rw [floor]
  simp only [clampCoordinate]
  omega

theorem ceil_le {right : Int} (hplace : c.place ≤ right) (hright : -2147483648 ≤ right) :
    c.ceil ≤ right := by
  have hround := (c.roundUp_le_iff right).mpr hplace
  rw [ceil]
  simp only [clampCoordinate]
  omega

theorem le_floor {left : Int} (hplace : left ≤ c.place) (hleft : left ≤ 2147483647) :
    left ≤ c.floor := by
  have hround := (c.le_roundDown_iff left).mpr hplace
  rw [floor]
  simp only [clampCoordinate]
  omega

theorem ceil_eq_of_place (h : c.place = d.place) : c.ceil = d.ceil :=
  congrArg clampCoordinate (eq_of_forall_ge_iff fun x => by
    rw [roundUp_le_iff, roundUp_le_iff, h])

theorem floor_eq_of_place (h : c.place = d.place) : c.floor = d.floor :=
  congrArg clampCoordinate (eq_of_forall_le_iff fun x => by
    rw [le_roundDown_iff, le_roundDown_iff, h])

end Crossing

/-- The order in which a row is scanned: by place, and at one place the edges that
start there come last. -/
def ScanOrder (y : Int) (c d : Crossing) : Prop :=
  c.place ≤ d.place ∧ (c.place = d.place → c.StartsOn y → d.StartsOn y)

/-- Two crossings that make a tip on row `y`. -/
def IsTip (y : Int) (c d : Crossing) : Prop := c.edge.top.y = y ∧ d.edge.top.y = y ∧ c.meets d

instance (y : Int) (c d : Crossing) : Decidable (IsTip y c d) :=
  inferInstanceAs (Decidable (_ ∧ _ ∧ _))

def dropTips (y : Int) : List Crossing → List Crossing
  | [] => []
  | [c] => [c]
  | c :: d :: rest => if IsTip y c d then dropTips y rest else c :: dropTips y (d :: rest)

def pairUp (y : Int) : (start : Option Int) → List Crossing → Scan
  | start, [] => ⟨[], start⟩
  | none, c :: rest => pairUp y (some c.ceil) rest
  | some first, c :: rest =>
    let scan := pairUp y none rest
    { scan with spans := ⟨y, first, c.floor⟩ :: scan.spans }

theorem scanRow_eq_pairUp (y : Int) (start : Option Int) (cs : List Crossing) :
    scanRow y start cs = pairUp y start (dropTips y cs) := by
  fun_induction scanRow y start cs with
  | case1 start => cases start <;> rfl
  | case2 c => rfl
  | case3 first c => rfl
  | case4 start c d rest htip ih => rw [ih, dropTips, if_pos (by exact htip)]
  | case5 c d rest htip ih => rw [ih, dropTips, if_neg (by exact htip), pairUp]
  | case6 c d rest htip first scan ih =>
    rw [dropTips, if_neg (by exact htip), pairUp, ← ih]

theorem dropTips_sublist (y : Int) (cs : List Crossing) : (dropTips y cs).Sublist cs := by
  fun_induction dropTips y cs with
  | case1 => exact .slnil
  | case2 c => exact .refl _
  | case3 c d rest htip ih => exact (ih.cons d).cons c
  | case4 c d rest htip ih => exact ih.cons_cons c

/-- The crossings of a tip have one place, so dropping tips keeps the parity of
what is counted by place. -/
theorem countP_dropTips (y : Int) (p : Crossing → Bool) (cs : List Crossing)
    (hp : ∀ c d, c.place = d.place → p c = p d) :
    (dropTips y cs).countP p % 2 = cs.countP p % 2 := by
  fun_induction dropTips y cs with
  | case1 => rfl
  | case2 c => rfl
  | case3 c d rest htip ih =>
    have hcd := hp c d ((Crossing.meets_iff c d).mp htip.2.2)
    rw [List.countP_cons, List.countP_cons, hcd, ih]
    split <;> omega
  | case4 c d rest htip ih =>
    rw [List.countP_cons, List.countP_cons]
    omega

variable {y : Int} {cs : List Crossing}

theorem even_length_dropTips (h : Even cs.length) : Even (dropTips y cs).length := by
  have := countP_dropTips y (fun _ => true) cs fun _ _ _ => rfl
  simp only [List.countP_true] at this
  rw [Nat.even_iff] at h ⊢
  omega

theorem filter_dropTips (h : cs.Pairwise (ScanOrder y)) (q : ℚ) :
    (dropTips y cs).filter (fun c => c.place = q) =
      dropTips y (cs.filter fun c => c.place = q) := by
  fun_induction dropTips y cs with
  | case1 => rfl
  | case2 c => by_cases hc : c.place = q <;> simp [hc, dropTips]
  | case3 c d rest htip ih =>
    have hcd := (Crossing.meets_iff c d).mp htip.2.2
    have ih := ih h.tail.tail
    by_cases hc : c.place = q
    · rw [List.filter_cons_of_pos (by simpa using hc),
        List.filter_cons_of_pos (by simpa using hcd ▸ hc), dropTips, if_pos htip, ih]
    · rw [List.filter_cons_of_neg (by simpa using hc),
        List.filter_cons_of_neg (by simpa using hcd ▸ hc), ih]
  | case4 c d rest htip ih =>
    have ih := ih h.tail
    by_cases hc : c.place = q
    · rw [List.filter_cons_of_pos (by simpa using hc), ih]
      by_cases hd : d.place = q
      · rw [List.filter_cons_of_pos (a := c) (by simpa using hc),
          List.filter_cons_of_pos (a := d) (by simpa using hd), dropTips, if_neg htip]
      · -- what follows lies right of the place, so the crossing stays alone there
        have hnone : (d :: rest).filter (fun c => c.place = q) = [] := by
          refine List.filter_eq_nil_iff.mpr fun b hb => ?_
          have hcd : q < d.place :=
            lt_of_le_of_ne (hc ▸ (List.rel_of_pairwise_cons h List.mem_cons_self).1) (Ne.symm hd)
          rcases List.mem_cons.mp hb with rfl | hb
          · simpa using hd
          · have := (List.rel_of_pairwise_cons h.tail hb).1
            simpa using (lt_of_lt_of_le hcd this).ne'
        rw [List.filter_cons_of_pos (a := c) (by simpa using hc), hnone]
        rfl
    · rw [List.filter_cons_of_neg (by simpa using hc),
        List.filter_cons_of_neg (a := c) (by simpa using hc), ih]

theorem length_dropTips_place {q : ℚ} (h : cs.Pairwise (ScanOrder y))
    (hq : ∀ c ∈ cs, c.place = q) :
    (dropTips y cs).length =
      cs.countP (fun c => ¬c.StartsOn y) + cs.countP (fun c => c.StartsOn y) % 2 := by
  fun_induction dropTips y cs with
  | case1 => rfl
  | case2 c => by_cases hc : c.StartsOn y <;> simp [hc]
  | case3 c d rest htip ih =>
    have ih := ih h.tail.tail fun b hb => hq b (by simp [hb])
    have hc : c.StartsOn y := htip.1
    have hd : d.StartsOn y := htip.2.1
    simp only [ih, List.countP_cons, hc, hd]
    simp only [not_true_eq_false, decide_false, decide_true, if_true, Bool.false_eq_true, if_false]
    omega
  | case4 c d rest htip ih =>
    have ih := ih h.tail fun b hb => hq b (List.mem_cons_of_mem _ hb)
    have hmeet : c.place = d.place := by rw [hq c (by simp), hq d (by simp)]
    have hc : ¬c.StartsOn y := fun hc => htip ⟨hc,
      (List.rel_of_pairwise_cons h List.mem_cons_self).2 hmeet hc,
      (Crossing.meets_iff c d).mpr hmeet⟩
    rw [List.length_cons, ih, List.countP_cons (a := c), List.countP_cons (a := c)]
    simp only [hc, not_false_eq_true, decide_false, decide_true, if_true, Bool.false_eq_true,
      if_false]
    omega

theorem pairUp_row {y : Int} {start : Option Int} {cs : List Crossing} {s : Span}
    (hs : s ∈ (pairUp y start cs).spans) : s.y = y := by
  fun_induction pairUp y start cs with
  | case1 => simp at hs
  | case2 c rest ih => exact ih hs
  | case3 first c rest scan ih =>
    rcases List.mem_cons.mp hs with rfl | hs
    · rfl
    · exact ih hs

/-- Pairs of places in order cover a column as often as the second, fourth, ... place
lies not left of it but the one before does not lie right of it. -/
theorem coverCount_pairUp {y : Int} {cs : List Crossing}
    (h : cs.Pairwise fun c d => c.place ≤ d.place) (he : Even cs.length) {x : Int} (h₀ : 0 ≤ x)
    (h₁ : x < 2147483647) :
    coverCount (pairUp y none cs).spans x y =
      (cs.countP (fun c => c.place ≤ (x : ℚ)) + 1) / 2 -
        cs.countP (fun c => c.place < (x : ℚ)) / 2 := by
  match cs with
  | [] => simp [pairUp, coverCount]
  | [c] => simp at he
  | c :: d :: rest =>
    have hcd : c.place ≤ d.place := List.rel_of_pairwise_cons h List.mem_cons_self
    have he' : Even rest.length := by
      rw [List.length_cons, List.length_cons, Nat.even_add_one, Nat.even_add_one, not_not] at he
      exact he
    have hrest : rest.Pairwise fun c d => c.place ≤ d.place := h.tail.tail
    have ih := coverCount_pairUp hrest he' (y := y) h₀ h₁
    have hlt : (x : ℚ) ≤ d.place → rest.countP (fun c => c.place < (x : ℚ)) = 0 := by
      intro hd
      refine List.countP_eq_zero.mpr fun b hb => ?_
      simpa using hd.trans (List.rel_of_pairwise_cons h.tail hb)
    have hle : (x : ℚ) < d.place → rest.countP (fun c => c.place ≤ (x : ℚ)) = 0 := by
      intro hd
      refine List.countP_eq_zero.mpr fun b hb => ?_
      simpa using hd.trans_le (List.rel_of_pairwise_cons h.tail hb)
    simp only [pairUp, coverCount, List.countP_cons] at ih ⊢
    rw [ih]
    simp only [Span.Covers, true_and, c.ceil_le_iff h₀ h₁, d.le_floor_iff h₀ h₁,
      decide_eq_true_eq]
    rcases lt_trichotomy (x : ℚ) d.place with hd | hd | hd
    · rw [hle hd, hlt hd.le]
      by_cases hc : c.place ≤ x
      · by_cases hc' : c.place < x <;> simp [hc, hc', hd.le, hd.not_ge, hd.not_gt]
      · have hc' : ¬c.place < x := fun h => hc h.le
        simp [hc, hc', hd.not_ge, hd.not_gt]
    · rw [hlt hd.le]
      have hc : c.place ≤ x := hd ▸ hcd
      have hd' : ¬d.place < x := hd.not_gt
      by_cases hc' : c.place < x <;> simp [hc, hc', hd', hd.le, hd.ge] <;> omega
    · have hc : c.place < x := hcd.trans_lt hd
      simp only [hc, hc.le, hd, hd.le, hd.not_ge, and_false, if_true, if_false]
      omega

theorem countP_place_le (q : ℚ) (cs : List Crossing) :
    cs.countP (fun c => c.place ≤ q) =
      cs.countP (fun c => c.place < q) + cs.countP (fun c => c.place = q) := by
  induction cs with
  | nil => rfl
  | cons c rest ih =>
    simp only [List.countP_cons, decide_eq_true_eq, ih]
    rcases lt_trichotomy c.place q with h | h | h
    · simp only [h, h.le, h.ne, if_true, if_false]
      omega
    · simp only [h, le_refl, lt_irrefl, if_true, if_false]
      omega
    · simp only [h.not_ge, h.not_gt, h.ne', if_false]
      omega

theorem countP_dropTips_place (h : cs.Pairwise (ScanOrder y)) (q : ℚ) :
    (dropTips y cs).countP (fun c => c.place = q) =
      cs.countP (fun c => ¬c.StartsOn y ∧ c.place = q) +
        cs.countP (fun c => c.StartsOn y ∧ c.place = q) % 2 := by
  have hq : ∀ c ∈ cs.filter (fun c => c.place = q), c.place = q := fun c hc => by
    simpa using (List.mem_filter.mp hc).2
  rw [List.countP_eq_length_filter, filter_dropTips h,
    length_dropTips_place (h.sublist List.filter_sublist) hq, List.countP_filter,
    List.countP_filter]
  simp only [Bool.decide_and]

/-- How often the spans of a row cover a column, counted from its crossings alone. -/
theorem coverCount_scanRow (h : cs.Pairwise (ScanOrder y)) (he : Even cs.length) {x : Int}
    (h₀ : 0 ≤ x) (h₁ : x < 2147483647) {a b : Nat}
    (ha : cs.countP (fun c => c.place < (x : ℚ)) = a)
    (hb : cs.countP (fun c => ¬c.StartsOn y ∧ c.place = (x : ℚ)) +
      cs.countP (fun c => c.StartsOn y ∧ c.place = (x : ℚ)) % 2 = b) :
    coverCount (scanRow y none cs).spans x y = (a + b + 1) / 2 - a / 2 := by
  have hsub := dropTips_sublist y cs
  have hlen : Even (dropTips y cs).length := even_length_dropTips he
  have hsorted : (dropTips y cs).Pairwise fun c d => c.place ≤ d.place :=
    (h.sublist hsub).imp And.left
  rw [scanRow_eq_pairUp, coverCount_pairUp hsorted hlen h₀ h₁, countP_place_le,
    countP_dropTips_place h, hb]
  -- tips left of the column come in pairs, which shift both halves alike
  have hmod := countP_dropTips y (fun c => c.place < (x : ℚ)) cs fun c d hcd => by rw [hcd]
  have hle := hsub.countP_le (p := fun c => decide (c.place < (x : ℚ)))
  omega

/-- Pairing up leaves a span open exactly if one was open before an even number of crossings,
or none before an odd one. -/
theorem unclosed_pairUp_eq_none_iff {start : Option Int} {cs : List Crossing} :
    (pairUp y start cs).unclosed = none ↔ (Even cs.length ↔ start = none) := by
  fun_induction pairUp y start cs with
  | case1 start => simp
  | case2 c rest ih => simp [ih, Nat.even_add_one]
  | case3 first c rest scan ih => simp [scan, ih, Nat.even_add_one]

theorem unclosed_scanRow (h : Even cs.length) : (scanRow y none cs).unclosed = none := by
  rw [scanRow_eq_pairUp, unclosed_pairUp_eq_none_iff]
  exact iff_of_true (even_length_dropTips h) rfl

theorem ends_of_mem_pairUp {start : Option Int} {cs : List Crossing} {s : Span}
    (hs : s ∈ (pairUp y start cs).spans) :
    (start = some s.first ∨ ∃ c ∈ cs, s.first = c.ceil) ∧ ∃ c ∈ cs, s.last = c.floor := by
  fun_induction pairUp y start cs with
  | case1 => simp at hs
  | case2 c rest ih =>
    obtain ⟨hfirst, d, hd, hlast⟩ := ih hs
    refine ⟨.inr ?_, d, List.mem_cons_of_mem _ hd, hlast⟩
    rcases hfirst with hopen | ⟨b, hb, hfirst⟩
    · exact ⟨c, List.mem_cons_self, (Option.some.inj hopen).symm⟩
    · exact ⟨b, List.mem_cons_of_mem _ hb, hfirst⟩
  | case3 first c rest scan ih =>
    rcases List.mem_cons.mp hs with rfl | hs
    · exact ⟨.inl rfl, c, List.mem_cons_self, rfl⟩
    · obtain ⟨hfirst, d, hd, hlast⟩ := ih hs
      refine ⟨.inr ?_, d, List.mem_cons_of_mem _ hd, hlast⟩
      rcases hfirst with hopen | ⟨b, hb, hfirst⟩
      · cases hopen
      · exact ⟨b, List.mem_cons_of_mem _ hb, hfirst⟩

theorem ends_of_mem_scanRow {s : Span} (hs : s ∈ (scanRow y none cs).spans) :
    (∃ c ∈ cs, s.first = c.ceil) ∧ ∃ c ∈ cs, s.last = c.floor := by
  have hsub := (dropTips_sublist y cs).subset
  rw [scanRow_eq_pairUp] at hs
  obtain ⟨hfirst | ⟨c, hc, hfirst⟩, d, hd, hlast⟩ := ends_of_mem_pairUp hs
  · cases hfirst
  · exact ⟨⟨c, hsub hc, hfirst⟩, d, hsub hd, hlast⟩

theorem scanRow_row {s : Span} (hs : s ∈ (scanRow y none cs).spans) : s.y = y := by
  rw [scanRow_eq_pairUp] at hs
  exact pairUp_row hs

end Bitplane
