import Bitplane.Proofs.CommandLine.Dump
import Mathlib.Data.List.Chain

/-! # The bytes of a draw list

Each operation takes up the bytes from its command on to the next command, so that the
operations of a draw list share its bytes out among them.
-/

namespace Bitplane

/-- Operations, each with the offset behind it, one right behind the other from `start` on. -/
structure Tiled (data : Bytes) (start : Nat) (items : List (DrawOp × Nat)) : Prop where
  head : ∀ item ∈ items.head?, item.1.offset = start
  chain : items.IsChain fun item next => next.1.offset = item.2
  extent : ∀ item ∈ items,
    item.2 = item.1.offset + 1 + item.1.payloadSize ∧ item.2 ≤ data.size
  command : ∀ item ∈ items, data[item.1.offset]? = some item.1.command

/-- The offset behind the last operation, and `start` if there is none. -/
def stopOffset (start : Nat) (items : List (DrawOp × Nat)) : Nat :=
  (items.getLast?.map Prod.snd).getD start

def holdsByte (i : Nat) (item : DrawOp × Nat) : Bool := item.1.offset ≤ i && i < item.2

variable {revision : Revision} {data : Bytes} {count offset stop : Nat} {op : DrawOp}
  {items : List (DrawOp × Nat)} {result : Except FrameFault Nat}

theorem stopOffset_cons (start : Nat) (item : DrawOp × Nat) (items : List (DrawOp × Nat)) :
    stopOffset start (item :: items) = stopOffset item.2 items := by
  unfold stopOffset
  rw [List.getLast?_cons]
  cases items.getLast? <;> rfl

theorem Tiled.cons (hread : DrawOp.Reads revision data offset op stop)
    (h : Tiled data stop items) : Tiled data offset ((op, stop) :: items) := by
  obtain ⟨hoffset, hcommand, hstop, hle⟩ := hread.extent
  subst hoffset
  refine ⟨?_, ?_, ?_, ?_⟩
  · rintro item hitem
    cases hitem
    rfl
  · cases items with
    | nil => exact .singleton _
    | cons next rest => exact .cons_cons (h.head next rfl) h.chain
  · rintro item hitem
    rcases List.mem_cons.mp hitem with rfl | hitem
    · exact ⟨hstop, hle⟩
    · exact h.extent item hitem
  · rintro item hitem
    rcases List.mem_cons.mp hitem with rfl | hitem
    · exact hcommand
    · exact h.command item hitem

namespace DrawOp.ReadsAll

theorem tiled (h : ReadsAll revision data count offset items result) :
    Tiled data offset items := by
  induction h with
  | done => exact ⟨nofun, .nil, nofun, nofun⟩
  | stopped => exact ⟨nofun, .nil, nofun, nofun⟩
  | next hread _ ih => exact ih.cons hread

theorem eq_stopOffset (h : ReadsAll revision data count offset items (.ok stop)) :
    items.length = count ∧ stop = stopOffset offset items := by
  induction h using induction_complete with
  | done => exact ⟨rfl, rfl⟩
  | next _ _ ih =>
    obtain ⟨hlength, hstop⟩ := ih
    rw [stopOffset_cons]
    exact ⟨congrArg (· + 1) hlength, hstop⟩

/-- Each byte of the commands belongs to one operation, and no other byte to any. -/
theorem countP_holdsByte (h : ReadsAll revision data count offset items (.ok stop))
    (i : Nat) : items.countP (holdsByte i) = if offset ≤ i ∧ i < stop then 1 else 0 := by
  induction h using induction_complete with
  | done => rw [List.countP_nil, if_neg (by omega)]
  | @next _ offset mid op rest hread hrest ih =>
    obtain ⟨hoffset, -⟩ := hread.extent
    have hlt := hread.lt
    have hle := hrest.le
    rw [List.countP_cons, ih]
    simp only [holdsByte, hoffset, Bool.and_eq_true, decide_eq_true_eq]
    split_ifs <;> omega

theorem flatMap_extract (h : ReadsAll revision data count offset items (.ok stop)) :
    items.flatMap (fun item => (data.extract item.1.offset item.2).toList) =
      (data.extract offset stop).toList := by
  induction h using induction_complete with
  | done => simp
  | @next _ offset mid op rest hread hrest ih =>
    obtain ⟨hoffset, -⟩ := hread.extent
    have hlt := hread.lt
    have hle := hrest.le
    rw [List.flatMap_cons, ih, hoffset, ← Array.toList_append,
      Array.extract_append_extract, Nat.min_eq_left hlt.le, Nat.max_eq_right hle]

end DrawOp.ReadsAll

/-- The operations of a draw list stand one right behind the other from its header on,
each where its command is; at the end of the list there are as many as the header says, and
they share the bytes out among them. A dump shows these bytes, operation by operation. -/
theorem ops_tile_draw_list (revision : Revision) (data : Bytes) (start : Nat) :
    let d := Decoder.ofStart revision data start
    d.ops = d.placedOps.map Prod.fst ∧ Tiled data (start + 1) d.placedOps ∧
      ∀ stop, d.exhausted.endOffset? = some stop →
        data[start]?.map UInt8.toNat = some d.placedOps.length ∧
        stop = stopOffset (start + 1) d.placedOps ∧
        (∀ i, d.placedOps.countP (holdsByte i) = if start + 1 ≤ i ∧ i < stop then 1 else 0) ∧
        d.placedOps.flatMap (fun item => (data.extract item.1.offset item.2).toList) =
          (data.extract (start + 1) stop).toList ∧
        ∀ (script : Script) (frame : Nat), script.data = data →
          script.frameOffset frame = .ok start →
          CommandLine.Prints (CommandLine.dumpFrame script revision true frame)
            (s!"frame {frame} @ {Text.hex 4 start}" ::
              (d.placedOps.flatMap (fun item => [s!"  {item.1.text}",
                s!"    {Text.hexBytes (data.extract item.1.offset item.2)}"]) ++
              [s!"  end @ {Text.hex 4 stop}"])) := by
  intro d
  obtain ⟨count, items, result, hlist⟩ := DrawOp.exists_readsList revision data start
  have hgives := Decoder.gives_of_readsList hlist
  refine ⟨?_, ?_, fun stop hend => ?_⟩
  · rw [hgives.ops, hgives.placedOps]
  · rw [hgives.placedOps]
    cases hlist with
    | refused => exact ⟨nofun, .nil, nofun, nofun⟩
    | opened _ hall => exact hall.tiled
  · obtain ⟨count, items, hcount, hall⟩ := Decoder.readsAll_of_endOffset? hend
    have hlist := DrawOp.ReadsList.opened hcount hall
    obtain ⟨hlength, hstop⟩ := hall.eq_stopOffset
    rw [(Decoder.gives_of_readsList hlist).placedOps]
    refine ⟨?_, hstop, hall.countP_holdsByte, hall.flatMap_extract, ?_⟩
    · rw [(readDrawCount_eq_ok_iff.mp hcount).1, hlength]
      rfl
    · rintro script frame rfl hoffset
      exact CommandLine.prints_dumpFrame true hoffset hlist

/-- A polygon, a command passed over and a dump of both. -/
theorem ops_tile_polygon_and_skip :
    let data : Bytes := #[2, 0xD2, 1, 4, 5, 0xF2, 1, 2, 3, 4, 5, 6]
    let d := Decoder.ofStart .fourPlane data 0
    d.exhausted.endOffset? = some 12 ∧ d.placedOps.map Prod.snd = [5, 12] ∧
      CommandLine.Prints (CommandLine.dumpFrame ⟨#[0], data, by decide⟩ .fourPlane true 0)
        ["frame 0 @ 0x0000", "  0x0001 D2 polygon plane=0 vertices=1", "    d2010405",
          "  0x0005 F2 skip 6 bytes", "    f2010203040506", "  end @ 0x000c"] := by
  intro data d
  have hend : d.exhausted.endOffset? = some 12 := by decide +kernel
  obtain ⟨-, -, hclean⟩ := ops_tile_draw_list .fourPlane data 0
  obtain ⟨-, -, -, -, hdump⟩ := hclean 12 hend
  have hprints := hdump ⟨#[0], data, by decide⟩ 0 rfl rfl
  refine ⟨hend, by decide +kernel, ?_⟩
  have hlines : (d.placedOps.flatMap fun item => [s!"  {item.1.text}",
      s!"    {Text.hexBytes (data.extract item.1.offset item.2)}"]) =
      ["  0x0001 D2 polygon plane=0 vertices=1", "    d2010405",
          "  0x0005 F2 skip 6 bytes", "    f2010203040506"] := by
    decide +kernel
  rw [hlines] at hprints
  exact hprints

end Bitplane
