import Bitplane.Proofs.Script.Document
import Bitplane.Proofs.Script.Packed
import Bitplane.Script.File

/-! # Names and containers

What is written to a path is opened as it was written, unless the name of the path is one
of a split script's table: scripts are written in one container, and read from that of
their file's name.
-/

namespace Bitplane

namespace FileName

variable {path : String}

def EndsIn (path ending : String) : Prop := ∃ parts ∈ split? path, ending.toList <:+ parts.2

instance (path ending : String) : Decidable (EndsIn path ending) :=
  inferInstanceAs (Decidable (∃ parts ∈ split? path, ending.toList <:+ parts.2))

theorem replaceEnding?_eq_none_iff {old new : String} :
    replaceEnding? path old new = none ↔ ¬EndsIn path old := by
  unfold replaceEnding? EndsIn
  cases split? path with
  | none => simp
  | some parts => by_cases hsuffix : old.toList <:+ parts.2 <;> simp [hsuffix]

theorem splitName_append {stem extension : List Char} (hstem : stem ≠ [])
    (hpoint : '.' ∉ extension) :
    splitName (stem ++ '.' :: extension) = (stem, some extension) := by
  have hreverse : (stem ++ '.' :: extension).reverse =
      extension.reverse ++ '.' :: stem.reverse := by
    simp
  have hall : ∀ c ∈ extension.reverse, (c != '.') = true := by
    intro c hc
    rw [List.mem_reverse] at hc
    rw [bne_iff_ne]
    rintro rfl
    exact hpoint hc
  simp [splitName, hreverse, List.takeWhile_append_of_pos hall, List.dropWhile_append_of_pos hall,
    hstem]

theorem extension?_of_endsIn (h : EndsIn path "_index.bin") : extension? path = some "bin" := by
  obtain ⟨⟨directory, name⟩, hsplit, front, rfl⟩ := h
  have hname : front ++ "_index.bin".toList =
      (front ++ "_index".toList) ++ '.' :: "bin".toList := by
    rw [List.append_assoc]
    rfl
  rw [extension?, Option.mem_def.mp hsplit, hname]
  simp only [Option.bind_eq_bind, Option.bind_some]
  rw [splitName_append (by simp) (by decide)]
  rfl

end FileName

namespace Script

variable {s : Script} {path : String} {bytes : Bytes}

namespace Container

/-- Whether a name is that of a split script's table. -/
def NamesTable (path : String) : Prop :=
  FileName.EndsIn path "_index.bin" ∨ FileName.hasExtension path "idx" = true

instance (path : String) : Decidable (NamesTable path) := inferInstanceAs (Decidable (_ ∨ _))

theorem ofPath_of_not_namesTable (h : ¬NamesTable path) : ofPath path = forOutput path := by
  rw [NamesTable, not_or, Bool.not_eq_true] at h
  rw [ofPath, FileName.replaceEnding?_eq_none_iff.mpr h.1, h.2]
  rfl

theorem forOutput_eq (path : String) : forOutput path = .document ∨ forOutput path = .packed := by
  unfold forOutput
  split <;> simp

theorem exists_split_of_namesTable (h : NamesTable path) :
    (∃ dataPath, ofPath path = .split dataPath) ∧ forOutput path = .packed := by
  -- Both kinds of names have an extension already, and it is not that of a document.
  have hjson : FileName.hasExtension path "json" = false := by
    unfold FileName.hasExtension
    rcases h with h | h
    · rw [FileName.extension?_of_endsIn h]
      rfl
    · unfold FileName.hasExtension at h
      split at h
      case h_1 found _ =>
        rw [beq_iff_eq] at h
        simp [h]
      case h_2 => simp at h
  refine ⟨?_, by rw [forOutput, hjson]; rfl⟩
  unfold ofPath
  split
  case h_1 dataPath _ => exact ⟨dataPath, rfl⟩
  case h_2 hnone =>
    rcases h with h | h
    · exact absurd h (FileName.replaceEnding?_eq_none_iff.mp hnone)
    · exact ⟨_, if_pos h⟩

end Container

section Opening

variable {read? : String → Option Bytes}

theorem openSplit_eq_ok_iff {dataPath : String} : openSplit read? path dataPath = .ok s ↔
    ∃ table data, read? path = some table ∧ read? dataPath = some data ∧
      ofSplit table data = .ok s := by
  cases hread : read? path <;> cases hdata : read? dataPath <;>
    simp [openSplit, readFile, hread, hdata, bind, Except.bind, mapError_eq_ok_iff]

theorem openFile_eq_ok_iff : openFile read? path = .ok s ↔
    match Container.ofPath path with
    | .document => ∃ bytes, read? path = some bytes ∧ ofJson bytes = .ok s
    | .packed => ∃ bytes, read? path = some bytes ∧ ofPacked bytes = .ok s
    | .split dataPath => ∃ table data, read? path = some table ∧ read? dataPath = some data ∧
        ofSplit table data = .ok s := by
  unfold openFile
  cases Container.ofPath path with
  | document => cases hread : read? path <;> simp [readFile, hread, bind, Except.bind]
  | packed => cases hread : read? path <;> simp [readFile, hread, bind, Except.bind]
  | split dataPath => exact openSplit_eq_ok_iff

theorem ofSplit_eq_ok_iff {table data : Bytes} : ofSplit table data = .ok s ↔
    table.size % 2 = 0 ∧ s.offsets = readTable table ∧ s.data = data := by
  unfold ofSplit
  split <;> simp [*, ofParts_eq_ok_iff]

theorem offset_lt_of_openFile (h : openFile read? path = .ok s) :
    ∀ o ∈ s.offsets, o < 0x10000000000000000 := by
  intro o ho
  rw [openFile_eq_ok_iff] at h
  split at h
  case h_1 =>
    obtain ⟨bytes, -, hjson⟩ := h
    exact offset_lt_of_ofJson hjson o ho
  case h_2 =>
    obtain ⟨bytes, -, hpacked⟩ := h
    have := readTable_lt _ o ((ofPacked_eq_ok_iff.mp hpacked).2.1 ▸ ho)
    omega
  case h_3 =>
    obtain ⟨table, data, -, -, hsplit⟩ := h
    have := readTable_lt _ o ((ofSplit_eq_ok_iff.mp hsplit).2.1 ▸ ho)
    omega

theorem ofSplit_ne_of_packed (h : s.packed = .ok bytes) (data : Bytes) :
    ofSplit bytes data ≠ .ok s := by
  intro hsplit
  obtain ⟨-, hoffsets, -⟩ := ofSplit_eq_ok_iff.mp hsplit
  have hsize := size_of_packed h
  have hcount : s.frameCount = bytes.size / 2 := by rw [frameCount, hoffsets, size_readTable]
  omega

theorem contentFor_packed_eq_ok_iff : s.contentFor .packed = .ok bytes ↔ s.packed = .ok bytes :=
  mapError_eq_ok_iff

/-- What a script is written as is opened as the script exactly if the file's name is not
that of a table. -/
theorem openFile_eq_ok_iff_of_contentFor (h : ∀ o ∈ s.offsets, o < 0x10000000000000000)
    (hcontent : s.contentFor (Container.forOutput path) = .ok bytes)
    (hread : read? path = some bytes) :
    openFile read? path = .ok s ↔ ¬Container.NamesTable path := by
  constructor
  · -- Only a packed script stands under a table's name, and no script is its own table.
    intro hopen hnames
    obtain ⟨⟨dataPath, hpath⟩, houtput⟩ := Container.exists_split_of_namesTable hnames
    rw [houtput, contentFor_packed_eq_ok_iff] at hcontent
    simp only [openFile_eq_ok_iff, hpath, hread, Option.some.injEq] at hopen
    obtain ⟨_, data, rfl, -, hsplit⟩ := hopen
    exact ofSplit_ne_of_packed hcontent data hsplit
  · intro hnames
    rw [openFile_eq_ok_iff, Container.ofPath_of_not_namesTable hnames]
    rcases Container.forOutput_eq path with houtput | houtput
    · rw [houtput, contentFor, Except.ok.injEq] at hcontent
      rw [houtput]
      exact ⟨bytes, hread, hcontent ▸ ofJson_json h⟩
    · rw [houtput, contentFor_packed_eq_ok_iff] at hcontent
      rw [houtput]
      exact ⟨bytes, hread, ofPacked_of_packed hcontent⟩

end Opening

end Script

end Bitplane
