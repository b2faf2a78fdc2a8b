import Bitplane.Proofs.DrawList.Runs
import Bitplane.Proofs.Script.File

/-! # Where scripts come from

Whichever way a script is made, its input spells a table of offsets and a stream, and the
script is made exactly if every offset lies inside the stream. So every frame of a script
has a draw count, and its decoder comes past it or refuses it.
-/

namespace Bitplane

variable {revision : Revision} {data : Bytes} {start offset place needed stop : Nat}

/-! ## Behind a draw count -/

theorem Polygon.le_of_unexpectedEnd
    (h : Polygon.read data offset = .error (.unexpectedEnd place needed)) : offset ≤ place := by
  rcases Polygon.read_eq_error_iff.mp h with ⟨-, hfault⟩ | ⟨_, -, -, hfault⟩
  · cases hfault
    exact Nat.le_refl _
  · cases hfault
    exact Nat.le_succ _

namespace DrawOp

theorem le_of_readSkip_eq_unexpectedEnd {command : UInt8} {bytes : Nat}
    (h : readSkip data offset command bytes = (.error (.unexpectedEnd place needed), stop)) :
    offset ≤ place := by
  unfold readSkip at h
  split at h
  · cases h
    exact Nat.le_succ _
  · cases h

theorem le_of_read_eq_unexpectedEnd
    (h : read revision data offset = (.error (.unexpectedEnd place needed), stop)) :
    offset ≤ place := by
  unfold read at h
  split at h
  case h_1 =>
    cases h
    exact Nat.le_refl _
  case h_2 =>
    split at h
    case h_1 =>
      split at h
      case h_1 hshape =>
        cases h
        exact Nat.le_of_succ_le (Polygon.le_of_unexpectedEnd hshape)
      case h_2 => cases h
    case h_2 =>
      split at h
      case h_1 =>
        cases h
        exact Nat.le_succ _
      case h_2 => split at h <;> cases h
    case h_3 => exact le_of_readSkip_eq_unexpectedEnd h
    case h_4 =>
      split at h
      case h_1 => exact le_of_readSkip_eq_unexpectedEnd h
      case h_2 => cases h

theorem ReadsAll.le_of_unexpectedEnd {count : Nat} {items : List (DrawOp × Nat)}
    (h : ReadsAll revision data count offset items (.error (.unexpectedEnd place needed))) :
    offset ≤ place := by
  generalize hresult : Except.error (FrameFault.unexpectedEnd place needed) = result at h
  induction h with
  | done => cases hresult
  | stopped hread =>
    cases hresult
    exact le_of_read_eq_unexpectedEnd hread
  | next hreads _ ih => exact Nat.le_trans (Nat.le_of_lt hreads.lt) (ih hresult)

end DrawOp

theorem readDrawCount_eq_error_iff {count : UInt8} (hcount : data[start]? = some count)
    {fault : FrameFault} : readDrawCount revision data start = .error fault ↔
      ∃ most, revision.maxDraws = some most ∧ (count = 0 ∨ most < count) ∧
        fault = .drawCount start count most := by
  simp only [readDrawCount, hcount]
  cases revision.maxDraws with
  | none => simp
  | some most => by_cases hbad : count = 0 ∨ most < count <;> simp [hbad, eq_comm]

namespace Decoder

variable {count : UInt8}

theorem unexpectedEnd_notMem_outcomes (hcount : data[start]? = some count) (needed : Nat) :
    .error (.unexpectedEnd start needed) ∉ (ofStart revision data start).outcomes := by
  intro hmem
  obtain ⟨_, items, result, hlist⟩ := DrawOp.exists_readsList revision data start
  rw [(gives_of_readsList hlist).outcomes] at hmem
  have hfault : result = .error (.unexpectedEnd start needed) := by
    cases result <;> simp [faultOf?] at hmem ⊢
    exact hmem.symm
  subst hfault
  cases hlist with
  | refused herror =>
    obtain ⟨_, -, -, hfault⟩ := (readDrawCount_eq_error_iff hcount).mp herror
    cases hfault
  | opened _ hall => exact absurd hall.le_of_unexpectedEnd (Nat.not_succ_le_self _)

theorem nextCommand_fst {d : Decoder} {rest : Nat} (h : d.remaining = rest + 1) :
    d.nextCommand.1 = some (DrawOp.read d.revision d.data d.position).1 := by
  simp only [nextCommand, h]
  rcases DrawOp.read d.revision d.data d.position with ⟨fault | op, stop⟩ <;> rfl

theorem next_ofStart (hcount : data[start]? = some count) :
    let d := ofStart revision data start
    (∃ most, revision.maxDraws = some most ∧ (count = 0 ∨ most < count) ∧
      d.next.1 = some (.error (.drawCount start count most))) ∨
    (∀ most, revision.maxDraws = some most → count ≠ 0 ∧ count ≤ most) ∧
      (count = 0 ∧ d.next.1 = none ∧ d.next.2.endOffset? = some (start + 1) ∨
        count ≠ 0 ∧ d.next.1 = some (DrawOp.read revision data (start + 1)).1) := by
  intro d
  cases hread : readDrawCount revision data start with
  | error fault =>
    obtain ⟨most, hmost, hbad, rfl⟩ := (readDrawCount_eq_error_iff hcount).mp hread
    refine .inl ⟨most, hmost, hbad, ?_⟩
    simp only [d, next, header, ofStart, hread]
  | ok accepted =>
    obtain ⟨hbyte, hmost⟩ := readDrawCount_eq_ok_iff.mp hread
    obtain rfl : accepted = count := Option.some.inj (hbyte.symm.trans hcount)
    have hnext := (Headed.now (d := d) rfl hread).next_eq rfl
    refine .inr ⟨hmost, ?_⟩
    by_cases hempty : accepted = 0
    · subst hempty
      rw [hnext]
      exact .inl ⟨rfl, rfl, rfl⟩
    · have hsome : accepted.toNat ≠ 0 := fun hzero => hempty (UInt8.toNat_inj.mp hzero)
      obtain ⟨rest, hrest⟩ := Nat.exists_eq_add_one_of_ne_zero hsome
      exact .inr ⟨hempty, (congrArg Prod.fst hnext).trans (nextCommand_fst hrest)⟩

end Decoder

namespace Script

open Document (uniqueMember? listOf? size? byte? fields?_table_iff fields?_list_iff)

variable {s : Script} {offsets : Array Nat}

/-! ## Inputs -/

/-- What a script can be made from: its parts, a document, a text that spells one, a string
of bytes, a table and a stream, the two files that hold these, or a file by its name. -/
inductive Source where
  | parts (offsets : Array Nat) (data : Bytes)
  | document (d : Document)
  | json (text : Bytes)
  | packed (bytes : Bytes)
  | split (table data : Bytes)
  | files (read? : String → Option Bytes) (tablePath dataPath : String)
  | file (read? : String → Option Bytes) (path : String)

namespace Source

def load : Source → Except Fault Script
  | parts offsets data => (ofParts offsets data).mapError .script
  | document d => ofDocument d
  | json text => ofJson text
  | packed bytes => ofPacked bytes
  | split table data => (ofSplit table data).mapError .script
  | files read? tablePath dataPath => openSplit read? tablePath dataPath
  | file read? path => openFile read? path

/-- The offsets and the stream that an input spells, whether they go together or not. -/
inductive Spells : Source → Array Nat → Bytes → Prop
  | parts {offsets : Array Nat} {data : Bytes} : Spells (.parts offsets data) offsets data
  | object {members : List (String × Document)} {indices bytes : Document} {offsets : Array Nat}
      {data : Bytes} : uniqueMember? members "indices" = some (some indices) →
      uniqueMember? members "data" = some (some bytes) →
      listOf? size? indices = some offsets.toList → listOf? byte? bytes = some data.toList →
      Spells (.document (.table members)) offsets data
  | array {indices bytes : Document} {offsets : Array Nat} {data : Bytes} :
      listOf? size? indices = some offsets.toList → listOf? byte? bytes = some data.toList →
      Spells (.document (.list [indices, bytes])) offsets data
  | json {text : Bytes} {d : Document} {offsets : Array Nat} {data : Bytes} :
      Document.Json.document? text = some d → Spells (.document d) offsets data →
      Spells (.json text) offsets data
  | packed {bytes : Bytes} {offsets : Array Nat} {data : Bytes} :
      2 + 2 * packedCount bytes ≤ bytes.size →
      offsets = readTable (bytes.extract 2 (2 + 2 * packedCount bytes)) →
      data = bytes.extract (2 + 2 * packedCount bytes) bytes.size →
      Spells (.packed bytes) offsets data
  | split {table : Bytes} {offsets : Array Nat} {data : Bytes} : table.size % 2 = 0 →
      offsets = readTable table → Spells (.split table data) offsets data
  | files {read? : String → Option Bytes} {tablePath dataPath : String} {table stream : Bytes}
      {offsets : Array Nat} {data : Bytes} : read? tablePath = some table →
      read? dataPath = some stream → Spells (.split table stream) offsets data →
      Spells (.files read? tablePath dataPath) offsets data
  | documentFile {read? : String → Option Bytes} {path : String} {text : Bytes}
      {offsets : Array Nat} {data : Bytes} : Container.ofPath path = .document →
      read? path = some text → Spells (.json text) offsets data →
      Spells (.file read? path) offsets data
  | packedFile {read? : String → Option Bytes} {path : String} {bytes : Bytes}
      {offsets : Array Nat} {data : Bytes} : Container.ofPath path = .packed →
      read? path = some bytes → Spells (.packed bytes) offsets data →
      Spells (.file read? path) offsets data
  | splitFiles {read? : String → Option Bytes} {path dataPath : String} {offsets : Array Nat}
      {data : Bytes} : Container.ofPath path = .split dataPath →
      Spells (.files read? path dataPath) offsets data → Spells (.file read? path) offsets data

theorem load_document_eq_ok_iff {d : Document} :
    (Source.document d).load = .ok s ↔ Spells (.document d) s.offsets s.data := by
  rw [load, ofDocument_eq_ok_iff]
  constructor
  · rintro ⟨indices, bytes, hfields, hindices, hbytes⟩
    obtain ⟨indices, rfl, hindices⟩ := Option.bind_eq_some_iff.mp hindices
    obtain ⟨bytes, rfl, hbytes⟩ := Option.bind_eq_some_iff.mp hbytes
    cases d with
    | table members =>
      obtain ⟨hfirst, hsecond⟩ := fields?_table_iff.mp hfields
      exact .object hfirst hsecond hindices hbytes
    | list items =>
      obtain rfl := fields?_list_iff.mp hfields
      exact .array hindices hbytes
    | _ => cases hfields
  · intro h
    cases h with
    | object hfirst hsecond hindices hbytes =>
      exact ⟨_, _, fields?_table_iff.mpr ⟨hfirst, hsecond⟩, hindices, hbytes⟩
    | array hindices hbytes => exact ⟨_, _, fields?_list_iff.mpr rfl, hindices, hbytes⟩

theorem load_json_eq_ok_iff {text : Bytes} :
    (Source.json text).load = .ok s ↔ Spells (.json text) s.offsets s.data := by
  rw [load, ofJson, Document.Json.read_eq_ok_iff]
  constructor
  · rintro ⟨d, htext, hd⟩
    exact .json htext (load_document_eq_ok_iff.mp hd)
  · intro h
    cases h with
    | json htext hd => exact ⟨_, htext, load_document_eq_ok_iff.mpr hd⟩

theorem load_packed_eq_ok_iff {bytes : Bytes} :
    (Source.packed bytes).load = .ok s ↔ Spells (.packed bytes) s.offsets s.data := by
  rw [load, ofPacked_eq_ok_iff]
  constructor
  · rintro ⟨hle, hoffsets, hdata⟩
    exact .packed hle hoffsets hdata
  · intro h
    cases h with
    | packed hle hoffsets hdata => exact ⟨hle, hoffsets, hdata⟩

theorem ofSplit_eq_ok_iff_spells {table stream : Bytes} :
    ofSplit table stream = .ok s ↔ Spells (.split table stream) s.offsets s.data := by
  rw [ofSplit_eq_ok_iff]
  constructor
  · rintro ⟨heven, hoffsets, rfl⟩
    exact .split heven hoffsets
  · generalize s.data = data
    intro h
    cases h with
    | split heven hoffsets => exact ⟨heven, hoffsets, rfl⟩

theorem load_files_eq_ok_iff {read? : String → Option Bytes} {tablePath dataPath : String} :
    (Source.files read? tablePath dataPath).load = .ok s ↔
      Spells (.files read? tablePath dataPath) s.offsets s.data := by
  rw [load, openSplit_eq_ok_iff]
  constructor
  · rintro ⟨table, stream, htable, hstream, hsplit⟩
    exact .files htable hstream (ofSplit_eq_ok_iff_spells.mp hsplit)
  · intro h
    cases h with
    | files htable hstream hsplit =>
      exact ⟨_, _, htable, hstream, ofSplit_eq_ok_iff_spells.mpr hsplit⟩

theorem load_file_eq_ok_iff {read? : String → Option Bytes} {path : String} :
    (Source.file read? path).load = .ok s ↔ Spells (.file read? path) s.offsets s.data := by
  constructor
  · intro h
    have hopen := openFile_eq_ok_iff.mp h
    cases hpath : Container.ofPath path with
    | document =>
      rw [hpath] at hopen
      obtain ⟨text, hread, hjson⟩ := hopen
      exact .documentFile hpath hread (load_json_eq_ok_iff.mp hjson)
    | packed =>
      rw [hpath] at hopen
      obtain ⟨bytes, hread, hpacked⟩ := hopen
      exact .packedFile hpath hread (load_packed_eq_ok_iff.mp hpacked)
    | split dataPath =>
      rw [hpath] at hopen
      exact .splitFiles hpath (load_files_eq_ok_iff.mp (openSplit_eq_ok_iff.mpr hopen))
  · intro h
    refine openFile_eq_ok_iff.mpr ?_
    cases h with
    | documentFile hpath hread hjson =>
      rw [hpath]
      exact ⟨_, hread, load_json_eq_ok_iff.mpr hjson⟩
    | packedFile hpath hread hpacked =>
      rw [hpath]
      exact ⟨_, hread, load_packed_eq_ok_iff.mpr hpacked⟩
    | splitFiles hpath hfiles =>
      rw [hpath]
      exact openSplit_eq_ok_iff.mp (load_files_eq_ok_iff.mpr hfiles)

/-- Every way in makes the script of the parts that the input spells. -/
theorem load_eq_ok_iff (source : Source) :
    source.load = .ok s ↔ source.Spells s.offsets s.data := by
  cases source with
  | parts offsets data =>
    rw [load, mapError_eq_ok_iff, ofParts_eq_ok_iff]
    constructor
    · rintro ⟨rfl, rfl⟩
      exact .parts
    · generalize s.offsets = found, s.data = stream
      intro h
      cases h
      exact ⟨rfl, rfl⟩
  | document => exact load_document_eq_ok_iff
  | json => exact load_json_eq_ok_iff
  | packed => exact load_packed_eq_ok_iff
  | split => exact mapError_eq_ok_iff.trans ofSplit_eq_ok_iff_spells
  | files => exact load_files_eq_ok_iff
  | file => exact load_file_eq_ok_iff

theorem exists_load_iff (source : Source) :
    (∃ s, source.load = .ok s ∧ s.offsets = offsets ∧ s.data = data) ↔
      source.Spells offsets data ∧ ∀ o ∈ offsets, o < data.size := by
  constructor
  · rintro ⟨s, hload, rfl, rfl⟩
    exact ⟨(load_eq_ok_iff source).mp hload, s.offset_lt⟩
  · rintro ⟨hspells, hlt⟩
    exact ⟨⟨offsets, data, hlt⟩, (load_eq_ok_iff source).mpr hspells, rfl, rfl⟩

end Source

/-! ## Frames -/

/-- Whatever an input is, the scripts that it makes hold what it spells, and it makes one
exactly if all offsets lie inside the stream. So at the offset of a frame there is always a
draw count: no decoder of the frame, of whatever revision, finds the stream at its end
there. Its first step refuses the count, finishes an empty list or comes to what the first
command is read as. -/
theorem loaded_scripts_decode (source : Source) :
    (∀ offsets data, (∃ s, source.load = .ok s ∧ s.offsets = offsets ∧ s.data = data) ↔
      source.Spells offsets data ∧ ∀ o ∈ offsets, o < data.size) ∧
    ∀ s, source.load = .ok s → ∀ (revision : Revision) (frame : Nat), frame < s.frameCount →
      ∃ start count, s.frameOffset frame = .ok start ∧ s.data[start]? = some count ∧
        ∃ d, s.decoder revision frame = .ok d ∧
          (∀ needed, .error (.unexpectedEnd start needed) ∉ d.outcomes) ∧
          ((∃ most, revision.maxDraws = some most ∧ (count = 0 ∨ most < count) ∧
              d.next.1 = some (.error (.drawCount start count most))) ∨
            (∀ most, revision.maxDraws = some most → count ≠ 0 ∧ count ≤ most) ∧
              (count = 0 ∧ d.next.1 = none ∧ d.next.2.endOffset? = some (start + 1) ∨
                count ≠ 0 ∧ d.next.1 = some (DrawOp.read revision s.data (start + 1)).1)) := by
  refine ⟨fun _ _ => source.exists_load_iff, fun s _ revision frame hframe => ?_⟩
  have hlt : s.offsets[frame] < s.data.size := s.offset_lt _ (Array.getElem_mem hframe)
  have hoffset : s.frameOffset frame = .ok s.offsets[frame] := by
    rw [frameOffset, Array.getElem?_eq_getElem hframe]
  have hcount : s.data[s.offsets[frame]]? = some s.data[s.offsets[frame]] :=
    Array.getElem?_eq_getElem hlt
  exact ⟨_, _, hoffset, hcount, _, decoder_of_frameOffset revision hoffset,
    Decoder.unexpectedEnd_notMem_outcomes hcount, Decoder.next_ofStart hcount⟩

/-- A script of two frames from two files: the list of the second ends before its command. -/
theorem second_list_cut_short :
    let source := Source.split #[0, 0, 0, 1] #[0, 1]
    ∃ s, source.load = .ok s ∧ 1 < s.frameCount ∧ ∃ d, s.decoder .fourPlane 1 = .ok d ∧
      d.next.1 = some (.error (.unexpectedEnd 2 1)) := by
  intro source
  obtain ⟨hloads, hframes⟩ := loaded_scripts_decode source
  have hspells : source.Spells #[0, 1] #[0, 1] := .split rfl (by decide)
  obtain ⟨s, hload, hoffsets, hdata⟩ := (hloads #[0, 1] #[0, 1]).mpr ⟨hspells, by decide⟩
  have hframe : 1 < s.frameCount := by
    have hsize : s.frameCount = 2 := congrArg Array.size hoffsets
    omega
  obtain ⟨start, count, hstart, hcount, d, hd, -, hnext⟩ := hframes s hload .fourPlane 1 hframe
  obtain rfl : 1 = start := by
    rw [frameOffset, hoffsets] at hstart
    exact Except.ok.inj hstart
  obtain rfl : 1 = count := by
    rw [hdata] at hcount
    exact Option.some.inj hcount
  refine ⟨s, hload, hframe, d, hd, ?_⟩
  rw [hdata] at hnext
  rcases hnext with ⟨most, hmost, -⟩ | ⟨-, ⟨hempty, -⟩ | ⟨-, hread⟩⟩
  · cases hmost
  · exact absurd hempty (by decide)
  · exact hread

end Script

end Bitplane
