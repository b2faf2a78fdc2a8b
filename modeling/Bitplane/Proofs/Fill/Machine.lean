import Bitplane.Proofs.Fill.Bounds
import Bitplane.Proofs.Fill.Sides
import Bitplane.Proofs.Options

/-! # Filling on a machine

The rasterizer counts without a bound. Here it is spelled as a machine does it, with
coordinates of 32 bits, positions of 64 and products of 128, on which a value that its word
does not hold and a place outside of a buffer have no result, and on which no column is
clamped. Where all placed vertices are near, every result is there, and it is the
rasterizer's own.
-/

namespace Bitplane

/-- A point whose coordinates 31 bits hold, so that 32 bits hold the difference of two. -/
def Vertex.Near (v : Vertex) : Prop :=
  -2 ^ 30 < v.y ∧ v.y < 2 ^ 30 ∧ -2 ^ 30 < v.x ∧ v.x < 2 ^ 30

def Edge.Near (e : Edge) : Prop := e.top.Near ∧ e.bottom.Near

def Crossing.Near (c : Crossing) : Prop := c.edge.Near ∧ c.BetweenEnds

namespace Machine

/-- Whether a word holds a number, with so many bits beside the sign. -/
def Fits (bits : Nat) (n : Int) : Prop := -2 ^ bits ≤ n ∧ n < 2 ^ bits

instance (bits : Nat) (n : Int) : Decidable (Fits bits n) := inferInstanceAs (Decidable (_ ∧ _))

def word (bits : Nat) (n : Int) : Option Int := if Fits bits n then some n else none

/-! ## Outlines -/

section Outlines

def place (p : Placement) (v : Vertex) : Option Vertex := do
  let y ← word 31 ((← word 31 (v.y * p.scale)) + p.y)
  let x ← word 31 ((← word 31 (v.x * p.scale)) + p.x)
  return ⟨y, x⟩

def side (a b : Vertex) : Option (Option Crossing) :=
  match Edge.between? a b with
  | none => return none
  | some e => do
    let dy ← word 31 (e.bottom.y - e.top.y)
    let _ ← word 31 (e.bottom.x - e.top.x)
    let num ← word 63 (e.top.x * dy)
    return some ⟨e, num⟩

def outline (p : Placement) (vertices : List Vertex) : Option (List Crossing) := do
  let found ← (List.range vertices.length).mapM fun i => do
    let a ← place p (← vertices[i]?)
    let b ← place p (← vertices[(i + 1) % vertices.length]?)
    side a b
  return found.filterMap id

end Outlines

/-! ## The edge table -/

section Table

def slot (top row : Int) : Option Nat := do
  let place ← word 31 (row - top)
  if 0 ≤ place then some place.toNat else none

def link (top : Int) (z : Rasterizer) (i : Nat) : Option Rasterizer := do
  let e ← z.edges[i]?
  let place ← slot top e.edge.top.y
  let first ← z.table[place]?
  return { z with
    edges := z.edges.modify i fun e => { e with next := first }
    table := z.table.setIfInBounds place (some i) }

def build (z : Rasterizer) (crossings : List Crossing) (top bottom : Int) : Option Rasterizer := do
  let last ← slot top bottom
  (List.range crossings.length).foldlM (link top)
    { z with
      edges := (crossings.map fun c => ⟨c, none⟩).toArray
      table := Array.replicate (last + 1) none
      active := [] }

/-- The numbers of a chain, unless it leaves the buffer or is longer than `fuel`. -/
def chain (edges : Array LinkedEdge) : (fuel : Nat) → Option Nat → Option (List Nat)
  | _, none => return []
  | 0, some _ => none
  | fuel + 1, some i => do
    let e ← edges[i]?
    return i :: (← chain edges fuel e.next)

end Table

/-! ## Rows -/

section Rows

def crossings (z : Rasterizer) (numbers : List Nat) : Option (List Crossing) :=
  numbers.mapM fun i => z.edges[i]?.map (·.toCrossing)

def products (c d : Crossing) : Option (Int × Int) := do
  return (← word 127 (c.num * d.edge.dy), ← word 127 (d.num * c.edge.dy))

def activate (top y : Int) (z : Rasterizer) : Option Rasterizer := do
  let _ ← crossings z z.active
  let first ← z.table[← slot top y]?
  let entering ← chain z.edges z.edges.size first
  let numbers := z.active.filter (z.stays y) ++ entering
  let cs ← crossings z numbers
  -- the order in which a sort compares is its own, so any two have to be comparable
  let _ ← cs.mapM fun c => cs.mapM (products c)
  return { z with active := numbers.mergeSort z.le }

/-- The first column that is not left of a crossing, which has to be a coordinate. -/
def ceil (c : Crossing) : Option Int := do
  let q := c.num / c.edge.dy
  word 31 (← word 63 (if c.num % c.edge.dy = 0 then q else q + 1))

def floor (c : Crossing) : Option Int := word 31 (c.num / c.edge.dy)

def scanRow (y : Int) : (start : Option Int) → List Crossing → Option Scan
  | start, [] => return ⟨[], start⟩
  | none, [c] => return ⟨[], some (← ceil c)⟩
  | some first, [c] => return ⟨[⟨y, first, ← floor c⟩], none⟩
  | start, c :: d :: rest => do
    let (left, right) ← products c d
    if c.edge.top.y = y ∧ d.edge.top.y = y ∧ left = right then scanRow y start rest
    else match start with
      | none => scanRow y (some (← ceil c)) (d :: rest)
      | some first =>
        let last ← floor c
        let scan ← scanRow y none (d :: rest)
        return { scan with spans := ⟨y, first, last⟩ :: scan.spans }

def step (edges : Array LinkedEdge) (i : Nat) : Option (Array LinkedEdge) := do
  let e ← edges[i]?
  let num ← word 63 (e.num + e.edge.dx)
  return edges.modify i fun e => { e with num := num }

def advance (z : Rasterizer) : Option Rasterizer := do
  return { z with edges := ← z.active.foldlM step z.edges }

def sweep (top : Int) : (count : Nat) → (y : Int) → Rasterizer → Plane →
    Option (Plane × Rasterizer)
  | 0, _, z, p => return (p, z)
  | count + 1, y, z, p => do
    let z ← activate top y z
    let scan ← scanRow y none (← crossings z z.active)
    sweep top count (y + 1) (← advance z) (p.xorSpans scan.spans)

def fill (z : Rasterizer) (p : Plane) (vertices : List Vertex) (clear : Bool) :
    Option (Plane × Rasterizer) := do
  let p := if clear then p.clear else p
  let found ← outline z.placement vertices
  match rowRange? (found.map Crossing.edge) with
  | none => return (p, { z with edges := #[] })
  | some (top, bottom) => sweep top ((← slot top bottom) + 1) top (← build z found top bottom) p

end Rows

/-! ## Results that are there -/

variable {bits : Nat} {n : Int}

theorem word_eq (h : Fits bits n) : word bits n = some n := if_pos h

theorem mul_within {a b s t : Int} (ha : -s ≤ a ∧ a ≤ s) (hb : -t ≤ b ∧ b ≤ t) :
    -(s * t) ≤ a * b ∧ a * b ≤ s * t := by
  rw [← abs_le] at ha hb ⊢
  rw [abs_mul]
  exact mul_le_mul ha hb (abs_nonneg b) ((abs_nonneg a).trans ha)

/-! ## Outlines of near points -/

section NearOutlines

variable {p : Placement} {v a b : Vertex} {e : Edge} {vertices points : List Vertex}

/-- A vertex that is placed without an overflow, and near. -/
structure Placeable (p : Placement) (v : Vertex) : Prop where
  scaled_y : Fits 31 (v.y * p.scale)
  scaled_x : Fits 31 (v.x * p.scale)
  near : (p.apply v).Near

theorem Placeable.place_eq (h : Placeable p v) : place p v = some (p.apply v) := by
  obtain ⟨hy, hx, hnear⟩ := h
  obtain ⟨hy', hy'', hx', hx''⟩ := hnear
  have hplacedY : Fits 31 (p.apply v).y := ⟨by omega, by omega⟩
  have hplacedX : Fits 31 (p.apply v).x := ⟨by omega, by omega⟩
  rw [Placement.apply] at hplacedY hplacedX
  simp only [place, word_eq hy, word_eq hx, word_eq hplacedY, word_eq hplacedX,
    Option.bind_eq_bind, Option.bind_some]
  rfl

theorem near_of_mem_outline (h : ∀ v ∈ vertices, Placeable p v)
    (he : e ∈ Bitplane.outline p vertices) : e.Near := by
  have hnear : ∀ w ∈ vertices.map p.apply, w.Near := by
    intro w hw
    obtain ⟨v, hv, rfl⟩ := List.mem_map.mp hw
    exact (h v hv).near
  obtain ⟨htop, hbottom⟩ := ends_of_mem_outline he
  exact ⟨hnear _ htop, hnear _ hbottom⟩

theorem side_eq (ha : a.Near) (hb : b.Near) :
    side a b = some ((Edge.between? a b).map Crossing.enter) := by
  rw [side]
  cases hbetween : Edge.between? a b with
  | none => rfl
  | some e =>
    obtain ⟨htop, hbottom⟩ : e.Near := by
      rcases Edge.ends_of_between? hbetween with ⟨htop, hbottom⟩ | ⟨htop, hbottom⟩
      · exact ⟨htop ▸ ha, hbottom ▸ hb⟩
      · exact ⟨htop ▸ hb, hbottom ▸ ha⟩
    obtain ⟨hy, hy', hx, hx'⟩ := htop
    obtain ⟨hy₂, hy₂', hx₂, hx₂'⟩ := hbottom
    have hdy : Fits 31 (e.bottom.y - e.top.y) := ⟨by omega, by omega⟩
    have hdx : Fits 31 (e.bottom.x - e.top.x) := ⟨by omega, by omega⟩
    have hnum : Fits 63 (e.top.x * (e.bottom.y - e.top.y)) := by
      have := mul_within (s := 2 ^ 30) (t := 2 ^ 31) ⟨hx.le, hx'.le⟩ ⟨hdy.1, hdy.2.le⟩
      exact ⟨by omega, by omega⟩
    simp only [word_eq hdy, word_eq hdx, word_eq hnum, Option.bind_eq_bind, Option.bind_some]
    rfl

theorem getElem?_sides {i : Nat} (h : (sides points)[i]? = some (a, b)) :
    points[i]? = some a ∧ points[(i + 1) % points.length]? = some b := by
  rw [sides_eq_zip_rotate] at h
  obtain ⟨ha, hb⟩ := List.getElem?_zip_eq_some.mp h
  rw [List.getElem?_rotate (List.getElem?_eq_some_iff.mp ha).1] at hb
  exact ⟨ha, hb⟩

theorem length_sides (points : List Vertex) : (sides points).length = points.length := by
  rw [sides_eq_zip_rotate, List.length_zip, List.length_rotate, Nat.min_self]

/-- The edge of a side where it starts, if it has one. -/
def entered (side : Vertex × Vertex) : Option Crossing :=
  (Edge.between? side.1 side.2).map Crossing.enter

theorem outline_eq (h : ∀ v ∈ vertices, Placeable p v) :
    outline p vertices = some ((Bitplane.outline p vertices).map Crossing.enter) := by
  have hlength : vertices.length = (sides (vertices.map p.apply)).length := by
    rw [length_sides, List.length_map]
  have hplace {i : Nat} {w : Vertex} (hw : (vertices.map p.apply)[i]? = some w) :
      ∃ v, vertices[i]? = some v ∧ place p v = some w ∧ w.Near := by
    rw [List.getElem?_map] at hw
    obtain ⟨v, hv, rfl⟩ := Option.map_eq_some_iff.mp hw
    have hv' := h v (List.mem_of_getElem? hv)
    exact ⟨v, hv, hv'.place_eq, hv'.near⟩
  have hsides : (List.range vertices.length).mapM (fun i => do
      let a ← place p (← vertices[i]?)
      let b ← place p (← vertices[(i + 1) % vertices.length]?)
      side a b) = some ((sides (vertices.map p.apply)).map entered) := by
    conv_lhs => arg 2; rw [hlength]
    refine mapM_range_eq_some_map fun i ⟨a, b⟩ hside => ?_
    obtain ⟨ha, hb⟩ := getElem?_sides hside
    rw [List.length_map] at hb
    obtain ⟨v, hv, hv', hnear⟩ := hplace ha
    obtain ⟨w, hw, hw', hnear'⟩ := hplace hb
    simp only [hv, hw, hv', hw', Option.bind_eq_bind, Option.bind_some, side_eq hnear hnear',
      entered]
  rw [outline, hsides, Bitplane.outline, List.map_filterMap]
  simp only [Option.bind_eq_bind, Option.bind_some, List.filterMap_map]
  rfl

end NearOutlines

/-! ## The table of near edges -/

section NearTable

variable {edges : List Edge} {top bottom row : Int} {count : Nat} {z : Rasterizer}

theorem sub_lt_of_rowRange? (hnear : ∀ e ∈ edges, e.Near)
    (h : rowRange? edges = some (top, bottom)) : bottom - top < 2 ^ 31 := by
  obtain ⟨⟨e, he, rfl⟩, f, hf, rfl⟩ := exists_of_rowRange? h
  obtain ⟨⟨hlow, -⟩, -⟩ := hnear e he
  obtain ⟨-, -, hhigh, -⟩ := hnear f hf
  omega

theorem getElem?_table (htable : z.table.size = (bottom - top).toNat + 1)
    (hbottom : row ≤ bottom) :
    z.table[(row - top).toNat]? = some (z.table.getD (row - top).toNat none) := by
  have hlt : (row - top).toNat < z.table.size := by omega
  rw [Array.getD_eq_getD_getElem?, Array.getElem?_eq_getElem hlt, Option.getD_some]

variable (hsize : bottom - top < 2 ^ 31)

include hsize

theorem slot_eq (htop : top ≤ row) (hbottom : row ≤ bottom) :
    slot top row = some (row - top).toNat := by
  rw [slot, word_eq ⟨by omega, by omega⟩]
  exact if_pos (by omega)

variable (hrows : InRows edges top bottom)

include hrows

theorem link_eq (h : Rasterizer.Linked edges top bottom count z) (hcount : count < edges.length) :
    link top z count = some (z.link top count) := by
  have hcrossing := h.crossing_eq count
  rw [List.getElem?_eq_getElem hcount, Option.map_some] at hcrossing
  obtain ⟨e, he, henter⟩ := Option.map_eq_some_iff.mp hcrossing
  have hedge : e.edge = edges[count] := congrArg Crossing.edge henter
  have hmem : e.edge ∈ edges := hedge ▸ List.getElem_mem hcount
  have htop := hrows.top_le _ hmem
  have hbottom := hrows.le_bottom _ hmem
  have hlt := e.edge.top_lt_bottom
  have hrow : e.edge.top.y ≤ bottom := by omega
  have hfirst := getElem?_table h.size_table hrow
  rw [Rasterizer.link_eq he, link]
  simp only [he, slot_eq hsize htop hrow, hfirst, Option.bind_eq_bind, Option.bind_some]
  rfl

theorem foldlM_link (h : Rasterizer.Linked edges top bottom 0 z) (hcount : count ≤ edges.length) :
    (List.range count).foldlM (link top) z =
      some ((List.range count).foldl (fun z i => z.link top i) z) := by
  induction count with
  | zero => rfl
  | succ count ih =>
    rw [List.range_succ, List.foldlM_append, ih (Nat.le_of_succ_le hcount), List.foldl_append]
    have hlink := link_eq hsize hrows (h.foldl_link (Nat.le_of_succ_le hcount)) hcount
    simp [hlink]

theorem build_eq (z : Rasterizer) :
    build z (edges.map Crossing.enter) top bottom = some (z.build edges top bottom) := by
  have hlt := hrows.top_lt_bottom
  have hfold := foldlM_link hsize hrows (Rasterizer.linked_start z edges top bottom) le_rfl
  rw [build, slot_eq hsize hlt.le le_rfl, List.length_map, List.map_map]
  exact hfold

end NearTable

/-! ## Near crossings -/

section NearCrossings

variable {c d : Crossing} {y : Int} {cs : List Crossing}

theorem dy_lt (h : c.Near) : c.edge.dy < 2 ^ 31 := by
  obtain ⟨⟨⟨hlow, -⟩, -, hhigh, -⟩, -⟩ := h
  rw [Edge.dy]
  omega

theorem num_within (h : c.Near) : -(2 ^ 30 * 2 ^ 31) ≤ c.num ∧ c.num ≤ 2 ^ 30 * 2 ^ 31 := by
  have hdy := c.edge.dy_pos
  have hlt := dy_lt h
  obtain ⟨⟨⟨-, -, htop, htop'⟩, -, -, hbottom, hbottom'⟩, hlow, hhigh⟩ := h
  have htopNum := mul_within (s := 2 ^ 30) (t := 2 ^ 31) ⟨htop.le, htop'.le⟩
    (b := c.edge.dy) ⟨by omega, by omega⟩
  have hbottomNum := mul_within (s := 2 ^ 30) (t := 2 ^ 31) ⟨hbottom.le, hbottom'.le⟩
    (b := c.edge.dy) ⟨by omega, by omega⟩
  omega

theorem columns_within (h : c.Near) :
    (-2 ^ 30 < ⌊c.place⌋ ∧ ⌊c.place⌋ < 2 ^ 30) ∧ -2 ^ 30 < ⌈c.place⌉ ∧ ⌈c.place⌉ < 2 ^ 30 := by
  obtain ⟨⟨⟨-, -, htop, htop'⟩, -, -, hbottom, hbottom'⟩, hbetween⟩ := h
  obtain ⟨hlow, hhigh⟩ := Crossing.betweenEnds_iff.mp hbetween
  have hfloor := Int.le_floor.mpr hlow
  have hceil := Int.ceil_le.mpr hhigh
  have hle := Int.floor_le_ceil c.place
  omega

theorem floor_eq_place (h : c.Near) : c.floor = ⌊c.place⌋ := by
  have := columns_within h
  rw [Crossing.floor, Crossing.roundDown_eq, clampCoordinate]
  omega

theorem ceil_eq_place (h : c.Near) : c.ceil = ⌈c.place⌉ := by
  have := columns_within h
  rw [Crossing.ceil, Crossing.roundUp_eq, clampCoordinate]
  omega

theorem floor_eq (h : c.Near) : floor c = some c.floor := by
  have := columns_within h
  rw [floor, Crossing.roundDown_eq, floor_eq_place h]
  exact word_eq ⟨by omega, by omega⟩

theorem ceil_eq (h : c.Near) : ceil c = some c.ceil := by
  have := columns_within h
  have hposition : Fits 63 ⌈c.place⌉ := ⟨by omega, by omega⟩
  have hcolumn : Fits 31 ⌈c.place⌉ := ⟨by omega, by omega⟩
  rw [ceil, Crossing.roundUp_eq, ceil_eq_place h]
  simp only [word_eq hposition, word_eq hcolumn, Option.bind_eq_bind, Option.bind_some]

theorem products_eq (hc : c.Near) (hd : d.Near) :
    products c d = some (c.num * d.edge.dy, d.num * c.edge.dy) := by
  have hdyc := c.edge.dy_pos
  have hdyd := d.edge.dy_pos
  have hltc := dy_lt hc
  have hltd := dy_lt hd
  have hleft := mul_within (t := 2 ^ 31) (num_within hc) (b := d.edge.dy) ⟨by omega, by omega⟩
  have hright := mul_within (t := 2 ^ 31) (num_within hd) (b := c.edge.dy) ⟨by omega, by omega⟩
  rw [products, word_eq ⟨by omega, by omega⟩, word_eq ⟨by omega, by omega⟩]
  rfl

theorem scanRow_eq (y : Int) (start : Option Int) (h : ∀ c ∈ cs, c.Near) :
    scanRow y start cs = some (Bitplane.scanRow y start cs) := by
  have hmeets (c d : Crossing) : c.meets d ↔ c.num * d.edge.dy = d.num * c.edge.dy := beq_iff_eq
  fun_induction Bitplane.scanRow y start cs with
  | case1 start => cases start <;> rfl
  | case2 c =>
    rw [scanRow, ceil_eq (h c List.mem_cons_self)]
    rfl
  | case3 first c =>
    rw [scanRow, floor_eq (h c List.mem_cons_self)]
    rfl
  | case4 start c d rest htip ih =>
    have hproducts := products_eq (h c (by simp)) (h d (by simp))
    rw [hmeets] at htip
    rw [← ih fun b hb => h b (by simp [hb])]
    cases start <;>
      simp only [scanRow, hproducts, Option.bind_eq_bind, Option.bind_some, if_pos htip]
  | case5 c d rest htip ih =>
    have hc := h c List.mem_cons_self
    have hproducts := products_eq hc (h d (by simp))
    rw [hmeets] at htip
    rw [← ih fun b hb => h b (List.mem_cons_of_mem c hb)]
    simp only [scanRow, hproducts, ceil_eq hc, Option.bind_eq_bind, Option.bind_some, if_neg htip]
  | case6 c d rest htip first scan ih =>
    have hc := h c List.mem_cons_self
    have hproducts := products_eq hc (h d (by simp))
    have hrest := ih fun b hb => h b (List.mem_cons_of_mem c hb)
    rw [hmeets] at htip
    simp only [scanRow, hproducts, floor_eq hc, hrest, Option.bind_eq_bind, Option.bind_some,
      if_neg htip]
    rfl

end NearCrossings

/-! ## The rows of near edges -/

section NearRows

open Rasterizer (Chained Swept)

theorem chain_eq {buffer : Array LinkedEdge} {first : Option Nat} {numbers : List Nat}
    (h : Chained buffer first numbers) {fuel : Nat} (hfuel : numbers.length ≤ fuel) :
    chain buffer fuel first = some numbers := by
  induction h generalizing fuel with
  | nil => exact chain.eq_1 ..
  | @cons i e rest he _ ih =>
    obtain ⟨fuel, rfl⟩ := Nat.exists_eq_succ_of_ne_zero (Nat.ne_of_gt (Nat.zero_lt_of_lt hfuel))
    simp only [chain, he, ih (Nat.le_of_succ_le_succ hfuel), Option.bind_eq_bind,
      Option.bind_some]
    rfl

theorem crossings_eq {z : Rasterizer} {numbers : List Nat}
    (h : ∀ i ∈ numbers, ∃ c, z.edges[i]? = some c) :
    crossings z numbers = some (z.crossings numbers) := by
  refine mapM_eq_some_filterMap fun i hi => ?_
  obtain ⟨c, hc⟩ := h i hi
  rw [hc]
  rfl

variable {edges : List Edge} {top bottom y : Int} {z : Rasterizer} {p : Plane} {count : Nat}

theorem exists_linked (h : Swept edges top bottom y z) {i : Nat} {q : Edge → Bool}
    (hi : i ∈ numbersOf edges q) : ∃ c, z.edges[i]? = some c := by
  obtain ⟨e, he, -⟩ := mem_numbersOf.mp hi
  obtain ⟨c, hc, -⟩ := h.getElem?_eq he
  exact ⟨c, hc⟩

variable (hnear : ∀ e ∈ edges, e.Near)

include hnear

theorem near_of_swept (h : Swept edges top bottom y z) {i : Nat} {c : LinkedEdge}
    (hc : z.edges[i]? = some c) : c.toCrossing.Near := by
  have he : edges[i]? = some c.edge := by rw [← h.edge_eq, hc, Option.map_some]
  exact ⟨hnear _ (List.mem_of_getElem? he), h.betweenEnds hc⟩

theorem near_of_mem_crossings (h : Swept edges top bottom y z) {numbers : List Nat}
    {c : Crossing} (hc : c ∈ z.crossings numbers) : c.Near := by
  obtain ⟨i, -, hi⟩ := List.mem_filterMap.mp hc
  obtain ⟨e, he, rfl⟩ := Option.map_eq_some_iff.mp hi
  exact near_of_swept hnear h he

variable (hsize : bottom - top < 2 ^ 31)

include hsize

theorem activate_eq (h : Swept edges top bottom y z) (htop : top ≤ y) (hbottom : y ≤ bottom) :
    activate top y z = some (z.activate top y) := by
  have hold := crossings_eq fun i hi => exists_linked h (h.active_perm.subset hi)
  have hfirst := getElem?_table h.size_table hbottom
  have hentering : chain z.edges z.edges.size (z.table.getD (y - top).toNat none) =
      some (Rasterizer.chain z.edges z.edges.size (z.table.getD (y - top).toNat none)) := by
    rw [h.entering_eq htop hbottom]
    refine chain_eq (h.chained y htop hbottom) ?_
    rw [List.length_reverse, h.size_eq]
    exact length_numbersOf_le
  set numbers := z.active.filter (z.stays y) ++
    Rasterizer.chain z.edges z.edges.size (z.table.getD (y - top).toNat none) with hnumbers
  have hnew : crossings z numbers = some (z.crossings numbers) := by
    refine crossings_eq fun i hi => exists_linked h ((h.activate_perm htop hbottom).subset ?_)
    exact (List.mergeSort_perm numbers z.le).symm.subset hi
  have hproducts : (z.crossings numbers).mapM (fun c => (z.crossings numbers).mapM (products c)) =
      some _ :=
    mapM_eq_some_map fun c hc => mapM_eq_some_map fun d hd =>
      products_eq (near_of_mem_crossings hnear h hc) (near_of_mem_crossings hnear h hd)
  simp only [activate, hold, slot_eq hsize htop hbottom, hfirst, hentering, ← hnumbers, hnew,
    hproducts, Option.bind_eq_bind, Option.bind_some]
  rfl

omit hnear hsize

theorem foldlM_step {numbers : List Nat} (hnodup : numbers.Nodup) {buffer : Array LinkedEdge}
    (h : ∀ i ∈ numbers, ∃ c, buffer[i]? = some c ∧ Fits 63 (c.num + c.edge.dx)) :
    numbers.foldlM step buffer = some (numbers.foldl
      (fun buffer i => buffer.modify i fun e => { e with toCrossing := e.toCrossing.advance })
      buffer) := by
  induction numbers generalizing buffer with
  | nil => rfl
  | cons i rest ih =>
    obtain ⟨hi, hrest⟩ := List.nodup_cons.mp hnodup
    obtain ⟨c, hc, hfits⟩ := h i List.mem_cons_self
    have hstep : step buffer i =
        some (buffer.modify i fun e => { e with toCrossing := e.toCrossing.advance }) := by
      simp only [step, hc, word_eq hfits, Option.bind_eq_bind, Option.bind_some, pure,
        Option.some.injEq]
      refine Array.ext_getElem? fun j => ?_
      rw [Array.getElem?_modify, Array.getElem?_modify]
      split
      case isTrue hij =>
        rw [← hij, hc]
        rfl
      case isFalse => rfl
    rw [List.foldlM_cons, hstep, List.foldl_cons]
    refine ih hrest fun j hj => ?_
    obtain ⟨d, hd, hfits⟩ := h j (List.mem_cons_of_mem i hj)
    have hne : i ≠ j := fun hij => hi (hij ▸ hj)
    exact ⟨d, by rw [Array.getElem?_modify, if_neg hne, hd], hfits⟩

include hnear

theorem advance_eq (h : Swept edges top bottom y z) (htop : top ≤ y) (hbottom : y ≤ bottom) :
    advance (z.activate top y) = some (z.activate top y).advance := by
  have hperm := h.activate_perm htop hbottom
  have hfits : ∀ i ∈ (z.activate top y).active,
      ∃ c, z.edges[i]? = some c ∧ Fits 63 (c.num + c.edge.dx) := by
    intro i hi
    obtain ⟨c, hc⟩ := exists_linked h (hperm.subset hi)
    have hmoved : (z.activate top y).advance.edges[i]? =
        some { c with toCrossing := c.toCrossing.advance } := by
      rw [h.getElem?_advance htop hbottom, if_pos hi, hc, Option.map_some]
    have hwithin := num_within (near_of_swept hnear (h.advance htop hbottom) hmoved)
    simp only [Crossing.advance] at hwithin
    exact ⟨c, hc, by omega, by omega⟩
  have hsteps : (z.activate top y).active.foldlM step (z.activate top y).edges =
      some (z.activate top y).advance.edges :=
    foldlM_step (hperm.nodup_iff.mpr nodup_numbersOf) hfits
  simp only [advance, hsteps, Option.bind_eq_bind, Option.bind_some]
  rfl

include hsize

theorem sweep_eq (h : Swept edges top bottom y z) (htop : top ≤ y)
    (hcount : y + count = bottom + 1) (p : Plane) :
    sweep top count y z p = some (z.sweep top count y p) := by
  induction count generalizing y z p with
  | zero => rfl
  | succ count ih =>
    have hbottom : y ≤ bottom := by omega
    have hperm := h.activate_perm htop hbottom
    have hactive : crossings (z.activate top y) (z.activate top y).active =
        some (z.crossings (z.activate top y).active) :=
      crossings_eq fun i hi => exists_linked h (hperm.subset hi)
    have hscan : scanRow y none (z.crossings (z.activate top y).active) = some _ :=
      scanRow_eq y none fun c hc => near_of_mem_crossings hnear h hc
    have hrest := ih (h.advance htop hbottom) (by omega) (by omega)
    simp only [sweep, activate_eq hnear hsize h htop hbottom, hactive, hscan,
      advance_eq hnear h htop hbottom, hrest, Option.bind_eq_bind, Option.bind_some]
    rfl

end NearRows

/-- Where all vertices are near once they are placed, a fill on a machine is a fill. -/
theorem fill_eq {z : Rasterizer} {vertices : List Vertex}
    (h : ∀ v ∈ vertices, Placeable z.placement v) (p : Plane) (clear : Bool) :
    fill z p vertices clear = some (z.fill p vertices clear) := by
  have hnear : ∀ e ∈ Bitplane.outline z.placement vertices, e.Near :=
    fun e he => near_of_mem_outline h he
  have hedges : ((Bitplane.outline z.placement vertices).map Crossing.enter).map Crossing.edge =
      Bitplane.outline z.placement vertices := by
    rw [List.map_map]
    exact List.map_id _
  simp only [fill, outline_eq h, hedges, Option.bind_eq_bind, Option.bind_some, Rasterizer.fill]
  cases hrange : rowRange? (Bitplane.outline z.placement vertices) with
  | none => rfl
  | some range =>
    obtain ⟨top, bottom⟩ := range
    have hsize := sub_lt_of_rowRange? hnear hrange
    have hrows := inRows_of_rowRange? hrange
    have hlt := hrows.top_lt_bottom
    have hswept := (Rasterizer.linked_build z _ top bottom).swept hrows
    simp only [slot_eq hsize hlt.le le_rfl, build_eq hsize hrows, Option.bind_some]
    exact sweep_eq hnear hsize hswept le_rfl (by omega) _

end Machine

end Bitplane
