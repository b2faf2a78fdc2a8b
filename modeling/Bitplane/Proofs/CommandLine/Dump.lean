import Bitplane.CommandLine.Inspect
import Bitplane.Proofs.DrawList.Runs

/-! # What a dump shows

A dump prints a frame's operations line by line, on demand each with its bytes, and
then the end of the draw list or the fault in front of the rest.
-/

namespace Bitplane.CommandLine

open DrawOp (ReadsList)
open Decoder (Trace)
open SessionM

/-- A step that succeeds and prints these lines, in this order. -/
def Prints (m : SessionM Unit) (lines : List String) : Prop :=
  ∀ s : Session, ∃ s' : Session,
    m.run.run s = (.ok (), s') ∧ s'.printed = lines.reverse ++ s.printed

theorem prints_print (line : String) : Prints (print line) [line] :=
  fun s => ⟨{ s with printed := line :: s.printed }, rfl, rfl⟩

theorem prints_say (notices : List Notice) : Prints (say notices) [] :=
  fun s => ⟨{ s with said := notices :: s.said }, rfl, rfl⟩

theorem prints_pure : Prints (pure ()) [] := fun s => ⟨s, rfl, rfl⟩

variable {m k : SessionM Unit} {lines more : List String}

theorem Prints.bind (hm : Prints m lines) (hk : Prints k more) :
    Prints (m >>= fun _ => k) (lines ++ more) := by
  intro s
  obtain ⟨t, hrun, hlines⟩ := hm s
  obtain ⟨u, hrun', hmore⟩ := hk t
  refine ⟨u, ?_, ?_⟩
  · rw [ExceptT.run_bind, StateT.run_bind, hrun]
    exact hrun'
  · rw [hmore, hlines, List.reverse_append, List.append_assoc]

theorem prints_forM (lines : List String) : Prints (lines.forM print) lines := by
  induction lines with
  | nil => exact prints_pure
  | cons line rest ih => exact (prints_print line).bind ih

theorem prints_forIn {α : Type} {f : α → SessionM Unit} {shown : α → List String} (xs : List α)
    (h : ∀ x ∈ xs, Prints (f x) (shown x)) :
    Prints (forIn xs PUnit.unit fun x _ => do f x; pure (ForInStep.yield PUnit.unit))
      (xs.flatMap shown) := by
  induction xs with
  | nil => exact prints_pure
  | cons x rest ih =>
    rw [List.forIn_cons, bind_assoc]
    simp only [pure_bind]
    exact (h x List.mem_cons_self).bind (ih fun y hy => h y (List.mem_cons_of_mem x hy))

variable {script : Script} {revision : Revision} {data : Bytes} {count : Option UInt8}
  {steps : List Decoder.Step} {items : List (DrawOp × Nat)} {result : Except FrameFault Nat}

/-- The lines of an operation, with the bytes up to the offset behind it on demand. -/
def itemLines (hex : Bool) (data : Bytes) (item : DrawOp × Nat) : List String :=
  s!"  {item.1.text}" ::
    if hex then [s!"    {Text.hexBytes (data.extract item.1.offset item.2)}"] else []

def endLine : Except FrameFault Nat → String
  | .ok stop => s!"  end @ {Text.hex 4 stop}"
  | .error fault => s!"  error: {fault.message}"

theorem stepLines_of_trace (hex : Bool) (h : Trace count steps items result)
    (hdata : ∀ s ∈ steps, s.after.data = data) :
    steps.flatMap (stepLines hex) = items.flatMap (itemLines hex data) ++
      (Decoder.faultOf? result).toList.map fun fault => endLine (.error fault) := by
  induction h with
  | finished hnone => simp [stepLines, hnone, Decoder.faultOf?]
  | failed hfault hnone => simp [stepLines, hfault, hnone, Decoder.faultOf?, endLine]
  | @read s rest op items result hop _ ih =>
    have hs : s.after.data = data := hdata s List.mem_cons_self
    rw [List.flatMap_cons, ih fun t ht => hdata t (List.mem_cons_of_mem s ht), List.flatMap_cons,
      List.append_assoc, itemLines, stepLines, hop, hs]

/-- A dump of a frame shows what its draw list can be read as. -/
theorem prints_dumpFrame (hex : Bool) {frame start : Nat}
    (hoffset : script.frameOffset frame = .ok start)
    (hlist : ReadsList revision script.data start count items result) :
    Prints (dumpFrame script revision hex frame)
      (s!"frame {frame} @ {Text.hex 4 start}" ::
        (items.flatMap (itemLines hex script.data) ++ [endLine result])) := by
  have htrace := Decoder.trace_of_readsList hlist
  obtain ⟨last, hlast, -, -, hend⟩ := htrace.getLast?
  have hdata : ∀ s ∈ (Decoder.ofStart revision script.data start).steps,
      s.after.data = script.data := by
    intro s hs
    obtain ⟨d, rfl, -, hd⟩ := Decoder.eq_step_of_mem_stepsUpTo hs
    exact d.source_next.2.trans hd
  have hdecoder := Script.decoder_of_frameOffset revision hoffset
  have hsteps := stepLines_of_trace hex htrace hdata
  have hloop := prints_forIn (Decoder.ofStart revision script.data start).steps
    fun s _ => (prints_say s.notices).bind (prints_forM (stepLines hex s))
  simp only [List.nil_append] at hloop
  rw [hsteps] at hloop
  have hopening := prints_print s!"frame {frame} @ {Text.hex 4 start}"
  simp only [dumpFrame, hdecoder, orFail, pure_bind, hlast, Option.bind_some, hend]
  cases result with
  | ok stop =>
    have hall := hopening.bind (hloop.bind (prints_print (endLine (.ok stop))))
    simp only [Decoder.faultOf?, Option.toList_none, List.map_nil, List.append_nil] at hall
    exact hall
  | error fault =>
    have hall := hopening.bind (hloop.bind prints_pure)
    simp only [Decoder.faultOf?, Option.toList_some, List.map_cons, List.map_nil,
      List.append_nil] at hall
    exact hall

end Bitplane.CommandLine
