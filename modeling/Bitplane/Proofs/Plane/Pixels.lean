import Bitplane.Proofs.DrawList.Machine
import Bitplane.Proofs.Fill.Machine
import Bitplane.Proofs.Plane.Tidy

/-! # Spans pixel by pixel

A span is cut to the drawable columns and toggled in one run. A pixel is looked up by itself.
Both toggle the same bytes, also on a machine, where the last column of a row is a word of
32 bits and a place in the buffer is one of 64. It stops on both ways where the byte of a
pixel is not in the buffer.
-/

namespace Bitplane

theorem mem_columns_iff {x x₀ x₁ : Int} {columns : List Int}
    (h : columns.Perm (x₀...=x₁).toList) : x ∈ columns ↔ x₀ ≤ x ∧ x ≤ x₁ := by
  rw [h.mem_iff, Std.Rcc.mem_toList_iff_mem, Std.Rcc.mem_iff]

namespace Plane

variable {p : Plane} {x y x₀ x₁ : Int} {columns : List Int}

/-- Whether the byte of a pixel is in the buffer, if the plane has this pixel. -/
def InBuffer (p : Plane) (x y : Int) : Prop :=
  p.Draws x y → y.toNat * p.stride + x.toNat < p.data.size

theorem IsWhole.inBuffer (h : p.IsWhole) (x y : Int) : p.InBuffer x y := by
  rintro ⟨hx, hwidth, hy, hheight⟩
  exact h.place_lt_size (by omega) (by omega)

theorem InBuffer.place_eq (h : p.InBuffer x y) (hdraws : p.Draws x y) :
    p.place x.toNat y.toNat = y.toNat * p.stride + x.toNat :=
  wrapped_eq_self_iff.mpr (Nat.lt_trans (h hdraws) p.size_data_lt)

theorem InBuffer.address?_eq_some_iff (h : p.InBuffer x y) {i : Nat} :
    p.address? x y = some i ↔ p.Draws x y ∧ i = y.toNat * p.stride + x.toNat := by
  unfold address?
  split
  case isTrue hdraws =>
    rw [h.place_eq hdraws, Option.some.injEq, eq_comm]
    exact (and_iff_right hdraws).symm
  case isFalse hout => exact ⟨nofun, fun hdraws => absurd hdraws.1 hout⟩

theorem address?_xorPixel (p : Plane) (x' y' x y : Int) :
    (p.xorPixel x' y').address? x y = p.address? x y := by
  rw [xorPixel_eq_xorSpan]
  rfl

theorem inBuffer_xorPixel (x' y' : Int) :
    (p.xorPixel x' y').InBuffer x y ↔ p.InBuffer x y := by
  rw [xorPixel_eq_xorSpan, InBuffer, xorSpan, withData, size_xorRun]
  rfl

theorem geometry_foldl_xorPixel (p : Plane) (y : Int) (columns : List Int) :
    (columns.foldl (fun q x => q.xorPixel x y) p).geometry = p.geometry := by
  induction columns generalizing p with
  | nil => rfl
  | cons x rest ih =>
    rw [List.foldl_cons, ih, xorPixel_eq_xorSpan]
    rfl

theorem getElem?_xorPixel (p : Plane) (x y : Int) (i : Nat) :
    (p.xorPixel x y).data[i]? =
      if p.address? x y = some i then p.data[i]?.map (· ^^^ p.pen) else p.data[i]? := by
  cases haddress : p.address? x y with
  | none => simp [xorPixel, haddress]
  | some j =>
    simp only [xorPixel, haddress, withData, Array.getElem?_modify, Option.some.injEq]

theorem xorSpan_of_lt (h : y < 0 ∨ p.height ≤ y ∨ min x₁ (p.width - 1) < max x₀ 0) :
    p.xorSpan y x₀ x₁ = p := by
  have hrun : p.run y x₀ x₁ = (0, 0) := if_pos h
  simp only [xorSpan, hrun]
  rfl

section Row

variable (hbuffer : ∀ x ∈ columns, p.InBuffer x y)
include hbuffer

theorem getElem?_foldl_xorPixel (hnodup : columns.Nodup) (i : Nat) :
    (columns.foldl (fun q x => q.xorPixel x y) p).data[i]? =
      if ∃ x ∈ columns, p.address? x y = some i then p.data[i]?.map (· ^^^ p.pen)
      else p.data[i]? := by
  induction columns generalizing p with
  | nil => simp
  | cons x rest ih =>
    obtain ⟨hfresh, hrest⟩ := List.nodup_cons.mp hnodup
    rw [List.forall_mem_cons] at hbuffer
    have hpen : (p.xorPixel x y).pen = p.pen := by
      rw [xorPixel_eq_xorSpan]
      rfl
    rw [List.foldl_cons, ih (fun x' hx' => (inBuffer_xorPixel x y).mpr (hbuffer.2 x' hx')) hrest,
      getElem?_xorPixel, hpen]
    simp only [address?_xorPixel, List.mem_cons, exists_eq_or_imp]
    by_cases hhere : p.address? x y = some i
    · have hothers : ¬∃ x' ∈ rest, p.address? x' y = some i := by
        rintro ⟨x', hx', hthere⟩
        obtain ⟨⟨hx, -⟩, hi⟩ := hbuffer.1.address?_eq_some_iff.mp hhere
        obtain ⟨⟨hx₁, -⟩, hi'⟩ := (hbuffer.2 x' hx').address?_eq_some_iff.mp hthere
        have hsame : x' = x := by omega
        exact hfresh (hsame ▸ hx')
      rw [if_neg hothers, if_pos hhere, if_pos (.inl hhere)]
    · simp only [hhere, false_or, if_false]

variable (h : columns.Perm (x₀...=x₁).toList)
include h

theorem mem_run_iff_address? (i : Nat) :
    ((p.run y x₀ x₁).1 ≤ i ∧ i < (p.run y x₀ x₁).1 + (p.run y x₀ x₁).2) ↔
      ∃ x ∈ columns, p.address? x y = some i := by
  have haddress : (∃ x ∈ columns, p.address? x y = some i) ↔
      ∃ x, (x₀ ≤ x ∧ x ≤ x₁) ∧ p.Draws x y ∧ i = y.toNat * p.stride + x.toNat := by
    simp only [← mem_columns_iff h]
    exact exists_congr fun x => and_congr_right fun hx => (hbuffer x hx).address?_eq_some_iff
  rw [haddress]
  clear haddress
  unfold run Draws
  dsimp only
  split
  case isTrue hnone =>
    constructor
    · rintro ⟨-, hlt⟩
      exact absurd hlt (Nat.not_lt_zero i)
    · rintro ⟨x, hx, hdraws, -⟩
      omega
  case isFalse hspan =>
    have hfirst : max x₀ 0 ∈ columns := (mem_columns_iff h).mpr (by omega)
    rw [(hbuffer _ hfirst).place_eq ⟨by omega, by omega, by omega, by omega⟩]
    constructor
    · rintro ⟨hle, hlt⟩
      exact ⟨(i - y.toNat * p.stride : Nat), by omega, by omega, by omega⟩
    · rintro ⟨x, hx, hdraws, rfl⟩
      omega

theorem getElem?_xorSpan (i : Nat) :
    (p.xorSpan y x₀ x₁).data[i]? =
      if ∃ x ∈ columns, p.address? x y = some i then p.data[i]?.map (· ^^^ p.pen)
      else p.data[i]? := by
  rw [xorSpan, withData, getElem?_xorRun]
  simp only [mem_run_iff_address? hbuffer h]
  split
  case isTrue => rw [funext (toggled_one p.pen)]
  case isFalse => simp [funext (toggled_zero p.pen)]

theorem foldl_xorPixel_eq_xorSpan :
    columns.foldl (fun q x => q.xorPixel x y) p = p.xorSpan y x₀ x₁ := by
  have hnodup : columns.Nodup := h.nodup_iff.mpr Std.Rcc.nodup_toList
  refine eq_of_geometry (geometry_foldl_xorPixel p y columns) (Array.ext_getElem? fun i => ?_)
  rw [getElem?_foldl_xorPixel hbuffer hnodup, getElem?_xorSpan hbuffer h]

end Row

end Plane

/-! ## On a machine -/

namespace Machine

def mul (a b : Nat) : Option Nat := if a * b < 2 ^ 64 then some (a * b) else none

section Drawing

variable (p : Plane)

/-- The place in the buffer of a drawable position, which has to be a word. -/
def address (x y : Int) : Option (Option Nat) := do
  if x < 0 ∨ y < 0 ∨ p.width ≤ x.toNat ∨ p.height ≤ y.toNat then return none
  return some (← add (← mul y.toNat p.stride) x.toNat)

/-- Toggles one pixel. The pen is made by a shift of which the width is taken modulo eight, as
it is where nothing checks a shift. -/
def xorPixel (x y : Int) : Option Plane := do
  match ← address p x y with
  | none => return p
  | some i =>
    let byte ← p.data[i]?
    return p.withData (p.data.setIfInBounds i (byte ^^^ p.pen)) Array.size_setIfInBounds

/-- The last drawable column. Of the width 32 bits are taken as they are, the highest of
which is a sign. -/
def lastColumn : Option Int := word 31 (Int.bmod p.width (2 ^ 32) - 1)

def rowBytes (row first last : Nat) : Option (Nat × Bytes) := do
  let base ← mul row p.stride
  let start ← add base first
  let stop ← add (← add base last) 1
  return (start, ← bytesBetween p.data start stop)

/-- Toggles the drawable part of a row by the same pen. -/
def xorSpan (y x₀ x₁ : Int) : Option Plane := do
  if y < 0 ∨ p.height ≤ y.toNat ∨ p.width = 0 then return p
  let first := max x₀ 0
  let last := min x₁ (← lastColumn p)
  if last < first then return p
  let (start, bytes) ← rowBytes p y.toNat first.toNat last.toNat
  return p.withData (Plane.xorRun p.pen bytes.size start p.data) (Plane.size_xorRun ..)

end Drawing

variable {p : Plane} {a b c : Nat} {x y x₀ x₁ : Int} {columns : List Int}

theorem mul_eq_some_iff : mul a b = some c ↔ a * b < 2 ^ 64 ∧ a * b = c := by
  rw [mul, Option.ite_none_right_eq_some, Option.some.injEq]

theorem add_eq_some_iff : add a b = some c ↔ a + b < 2 ^ 64 ∧ a + b = c := by
  rw [add, Option.ite_none_right_eq_some, Option.some.injEq]

theorem lastColumn_eq (hwidth : p.width < 2 ^ 31) : lastColumn p = some (p.width - 1 : Int) := by
  have hbmod : Int.bmod p.width (2 ^ 32) = p.width :=
    Int.bmod_eq_of_le (by omega) (by omega)
  rw [lastColumn, hbmod]
  exact word_eq ⟨by omega, by omega⟩

/-! ### Pixels -/

theorem address_of_draws (hdraws : p.Draws x y) :
    address p x y = do return some (← add (← mul y.toNat p.stride) x.toNat) := by
  rw [Plane.Draws] at hdraws
  rw [address, if_neg (by omega)]

theorem xorPixel_eq (h : p.InBuffer x y) : xorPixel p x y = some (p.xorPixel x y) := by
  rw [xorPixel, Plane.xorPixel]
  by_cases hdraws : p.Draws x y
  · have haddress := h.address?_eq_some_iff.mpr ⟨hdraws, rfl⟩
    have hplace := h hdraws
    have hsize := p.size_data_lt
    have hbase := mul_eq_some_iff.mpr
      ⟨(by omega : y.toNat * p.stride < 2 ^ 64), rfl⟩
    have hadd := add_eq_some_iff.mpr
      ⟨(by omega : y.toNat * p.stride + x.toNat < 2 ^ 64), rfl⟩
    have hbyte := Array.getElem?_eq_getElem hplace
    have hset := setIfInBounds_eq_modify hbyte (· ^^^ p.pen)
    simp only [address_of_draws hdraws, hbase, hadd, haddress, hbyte, hset, Option.pure_def,
      Option.bind_eq_bind, Option.bind_some]
  · have haddress : p.address? x y = none := if_neg hdraws
    rw [Plane.Draws] at hdraws
    rw [address, if_pos (by omega), haddress]
    rfl

theorem xorPixel_eq_none (h : ¬p.InBuffer x y) : xorPixel p x y = none := by
  obtain ⟨hdraws, hbeyond⟩ := Classical.not_imp.mp h
  refine Option.eq_none_iff_forall_ne_some.mpr fun q hq => hbeyond ?_
  rw [xorPixel, address_of_draws hdraws] at hq
  obtain ⟨_, haddress, hq⟩ := Option.bind_eq_some_iff.mp hq
  obtain ⟨base, hbase, hplace⟩ := Option.bind_eq_some_iff.mp haddress
  obtain ⟨i, hadd, hsome⟩ := Option.bind_eq_some_iff.mp hplace
  cases hsome
  obtain ⟨byte, hbyte, -⟩ := Option.bind_eq_some_iff.mp hq
  obtain ⟨-, rfl⟩ := mul_eq_some_iff.mp hbase
  obtain ⟨-, rfl⟩ := add_eq_some_iff.mp hadd
  exact (Array.getElem?_eq_some_iff.mp hbyte).1

theorem foldlM_xorPixel (hbuffer : ∀ x ∈ columns, p.InBuffer x y) :
    columns.foldlM (fun q x => xorPixel q x y) p =
      some (columns.foldl (fun q x => q.xorPixel x y) p) := by
  induction columns generalizing p with
  | nil => rfl
  | cons x rest ih =>
    rw [List.forall_mem_cons] at hbuffer
    rw [List.foldlM_cons, xorPixel_eq hbuffer.1, List.foldl_cons]
    exact ih fun x' hx' => (Plane.inBuffer_xorPixel x y).mpr (hbuffer.2 x' hx')

theorem foldlM_xorPixel_eq_none (hx : x ∈ columns) (h : ¬p.InBuffer x y) :
    columns.foldlM (fun q x => xorPixel q x y) p = none := by
  induction columns generalizing p with
  | nil => cases hx
  | cons x' rest ih =>
    rw [List.foldlM_cons]
    by_cases hhere : p.InBuffer x' y
    · have hrest : x ∈ rest := (List.mem_cons.mp hx).resolve_left fun heq => h (heq ▸ hhere)
      rw [xorPixel_eq hhere]
      exact ih hrest (mt (Plane.inBuffer_xorPixel x' y).mp h)
    · rw [xorPixel_eq_none hhere]
      rfl

/-! ### Spans -/

theorem exists_rowBytes {row first last : Nat} (hle : first ≤ last)
    (hlast : row * p.stride + last < p.data.size) :
    ∃ bytes, rowBytes p row first last = some (row * p.stride + first, bytes) ∧
      bytes.size = last - first + 1 := by
  have hsize := p.size_data_lt
  have hbase := mul_eq_some_iff.mpr ⟨(by omega : row * p.stride < 2 ^ 64), rfl⟩
  have hadd {n : Nat} (hn : n ≤ last) : add (row * p.stride) n = some (row * p.stride + n) :=
    add_of_lt (by omega)
  have hstop : add (row * p.stride + last) 1 =
      some (row * p.stride + first + (last - first + 1)) :=
    add_eq_some_iff.mpr ⟨by omega, by omega⟩
  have hbytes := Bytes.slice?_eq_some_iff.mpr
    ⟨(by omega : row * p.stride + first + (last - first + 1) ≤ p.data.size), rfl⟩
  refine ⟨_, ?_, Bytes.size_of_slice? hbytes⟩
  simp only [rowBytes, hbase, hadd hle, hadd le_rfl, hstop, bytesBetween_add, hbytes,
    Option.bind_eq_bind, Option.bind_some]
  rfl

theorem lt_size_of_rowBytes {row first last : Nat} {run : Nat × Bytes}
    (h : rowBytes p row first last = some run) : row * p.stride + last < p.data.size := by
  rw [rowBytes] at h
  obtain ⟨base, hbase, h⟩ := Option.bind_eq_some_iff.mp h
  obtain ⟨start, -, h⟩ := Option.bind_eq_some_iff.mp h
  obtain ⟨place, hplace, h⟩ := Option.bind_eq_some_iff.mp h
  obtain ⟨stop, hstop, h⟩ := Option.bind_eq_some_iff.mp h
  obtain ⟨bytes, hbytes, -⟩ := Option.bind_eq_some_iff.mp h
  obtain ⟨-, rfl⟩ := mul_eq_some_iff.mp hbase
  obtain ⟨-, rfl⟩ := add_eq_some_iff.mp hplace
  obtain ⟨-, rfl⟩ := add_eq_some_iff.mp hstop
  rw [bytesBetween] at hbytes
  split at hbytes
  case isTrue hle => exact hle.2
  case isFalse => cases hbytes

section Span

variable (hwidth : p.width < 2 ^ 31) (h : columns.Perm (x₀...=x₁).toList)
include hwidth h

theorem xorSpan_eq (hbuffer : ∀ x ∈ columns, p.InBuffer x y) :
    xorSpan p y x₀ x₁ = some (p.xorSpan y x₀ x₁) := by
  rw [xorSpan, lastColumn_eq hwidth]
  by_cases hrow : y < 0 ∨ p.height ≤ y.toNat ∨ p.width = 0
  · rw [if_pos hrow, Plane.xorSpan_of_lt (by omega)]
    rfl
  rw [if_neg hrow]
  simp only [Option.bind_eq_bind, Option.bind_some]
  by_cases hcolumns : min x₁ (p.width - 1) < max x₀ 0
  · rw [if_pos hcolumns, Plane.xorSpan_of_lt (.inr (.inr hcolumns))]
    rfl
  rw [if_neg hcolumns]
  have hends {x : Int} (hx : max x₀ 0 ≤ x) (hx' : x ≤ min x₁ (p.width - 1)) :
      p.InBuffer x y ∧ p.Draws x y :=
    ⟨hbuffer x ((mem_columns_iff h).mpr (by omega)), by omega, by omega, by omega, by omega⟩
  obtain ⟨hfirst, hdraws⟩ := hends le_rfl (not_lt.mp hcolumns)
  obtain ⟨hlast, hdraws'⟩ := hends (not_lt.mp hcolumns) le_rfl
  have hle : (max x₀ 0).toNat ≤ (min x₁ (p.width - 1)).toNat := by omega
  obtain ⟨bytes, hbytes, hsize⟩ := exists_rowBytes hle (hlast hdraws')
  have hrun : p.run y x₀ x₁ = (y.toNat * p.stride + (max x₀ 0).toNat, bytes.size) := by
    rw [Plane.run, if_neg (by omega), hfirst.place_eq hdraws, hsize]
    congr 1
    omega
  simp only [hbytes, Option.bind_some, Plane.xorSpan, hrun]
  rfl

theorem xorSpan_eq_none (hx : x ∈ columns) (hbuffer : ¬p.InBuffer x y) :
    xorSpan p y x₀ x₁ = none := by
  obtain ⟨⟨hleft, hright, htop, hbottom⟩, hbeyond⟩ := Classical.not_imp.mp hbuffer
  rw [mem_columns_iff h] at hx
  rw [xorSpan, lastColumn_eq hwidth, if_neg (by omega)]
  simp only [Option.bind_eq_bind, Option.bind_some]
  rw [if_neg (by omega)]
  refine Option.bind_eq_none_iff.mpr fun run hrun => absurd (lt_size_of_rowBytes hrun) ?_
  omega

/-- On a machine too a span is its pixels, for any plane. Both stop where a byte is missing. -/
theorem xorSpan_eq_foldlM :
    xorSpan p y x₀ x₁ = columns.foldlM (fun q x => xorPixel q x y) p := by
  by_cases hbuffer : ∀ x ∈ columns, p.InBuffer x y
  · rw [xorSpan_eq hwidth h hbuffer, foldlM_xorPixel hbuffer,
      Plane.foldl_xorPixel_eq_xorSpan hbuffer h]
  · obtain ⟨x, hx, hout⟩ : ∃ x ∈ columns, ¬p.InBuffer x y := by simpa using hbuffer
    rw [xorSpan_eq_none hwidth h hx hout, foldlM_xorPixel_eq_none hx hout]

end Span

end Machine

/-- A span is its pixels, each toggled once and in whatever order, for any row and columns of
which the plane has the bytes, and a whole plane has them all. Without a column it is nothing,
and the bytes that it toggles are those at the places of its drawable pixels. Where the width
is below `2 ^ 31`, a machine comes to the same on both ways for every plane: it stops if a byte
is missing, and else no column and no place is beyond its word. -/
theorem Plane.span_toggles_its_pixels (p : Plane) (y : Int) {x₀ x₁ : Int} {columns : List Int}
    (h : columns.Perm (x₀...=x₁).toList) :
    ((∀ x ∈ columns, p.InBuffer x y) →
      p.xorSpan y x₀ x₁ = columns.foldl (fun q x => q.xorPixel x y) p ∧
      ∀ i : Nat, (p.xorSpan y x₀ x₁).data[i]? =
        if ∃ x ∈ columns, p.address? x y = some i then p.data[i]?.map (· ^^^ p.pen)
        else p.data[i]?) ∧
    (p.IsWhole → ∀ x, p.InBuffer x y) ∧
    (x₁ < x₀ → p.xorSpan y x₀ x₁ = p) ∧
    (p.width < 2 ^ 31 →
      Machine.xorSpan p y x₀ x₁ = columns.foldlM (fun q x => Machine.xorPixel q x y) p ∧
      ((∀ x ∈ columns, p.InBuffer x y) →
        Machine.xorSpan p y x₀ x₁ = some (p.xorSpan y x₀ x₁))) :=
  ⟨fun hbuffer => ⟨(foldl_xorPixel_eq_xorSpan hbuffer h).symm, getElem?_xorSpan hbuffer h⟩,
    fun hwhole x => hwhole.inBuffer x y, fun hempty => xorSpan_of_lt (by omega),
    fun hwidth => ⟨Machine.xorSpan_eq_foldlM hwidth h, Machine.xorSpan_eq hwidth h⟩⟩

/-- From the first to the last number of 32 bits, of which three are drawable columns, in a
plane with padding; and a span that stops in front of its start. -/
theorem Plane.span_of_all_words_toggles_row :
    let p := Plane.dark 1 3 2 5
    let columns := ((-2 ^ 31 : Int)...=2 ^ 31 - 1).toList
    columns.Perm ((-2 ^ 31 : Int)...=2 ^ 31 - 1).toList ∧ p.IsWhole ∧ p.width < 2 ^ 31 ∧
      (columns.foldl (fun q x => q.xorPixel x 1) p).data = #[0, 0, 0, 0, 0, 2, 2, 2, 0, 0] ∧
      (Machine.xorSpan p 1 (-2 ^ 31) (2 ^ 31 - 1)).map Plane.data =
        some #[0, 0, 0, 0, 0, 2, 2, 2, 0, 0] ∧
      columns.foldlM (fun q x => Machine.xorPixel q x 1) p =
        Machine.xorSpan p 1 (-2 ^ 31) (2 ^ 31 - 1) ∧
      [].Perm ((2 : Int)...=1).toList ∧ p.xorSpan 1 2 1 = p := by
  intro p columns
  have hwhole : p.IsWhole := by decide
  have hwidth : p.width < 2 ^ 31 := by decide
  have hrow : (p.xorSpan 1 (-2 ^ 31) (2 ^ 31 - 1)).data = #[0, 0, 0, 0, 0, 2, 2, 2, 0, 0] := by
    decide +kernel
  have hnone : [].Perm ((2 : Int)...=1).toList := by
    rw [Int.toList_rcc_eq_nil (by decide)]
  obtain ⟨hpixels, hbuffer, -, hmachine⟩ := p.span_toggles_its_pixels 1 (.refl columns)
  replace hbuffer : ∀ x ∈ columns, p.InBuffer x 1 := fun x _ => hbuffer hwhole x
  obtain ⟨hloop, hspan⟩ := hmachine hwidth
  replace hspan := hspan hbuffer
  refine ⟨.refl columns, hwhole, hwidth, (hpixels hbuffer).1 ▸ hrow, ?_, hloop.symm, hnone, ?_⟩
  · rw [hspan, Option.map_some, hrow]
  · exact (p.span_toggles_its_pixels 1 hnone).2.2.1 (by decide)

end Bitplane
