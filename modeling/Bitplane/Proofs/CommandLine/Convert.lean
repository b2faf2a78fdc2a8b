import Bitplane.CommandLine.Run
import Bitplane.Proofs.CommandLine.Steps
import Bitplane.Proofs.Folder
import Bitplane.Proofs.Script.File
import Mathlib

/-! # What a conversion leaves behind

A conversion into one file writes the container that the output's name asks for, and what
it wrote is opened again as the same script unless that name is one of a table.
-/

namespace Bitplane.CommandLine

open Script (Container openFile)
open Script.Container
open SessionM

variable {s s' : Session} {path input output : String} {script : Script} {bytes : Bytes}

theorem gives_runConvert_iff : Gives (runConvert input output false) s () s' ↔
    ∃ script bytes name folder, openFile s.bytes? input = .ok script ∧
      script.contentFor (.forOutput output) = .ok bytes ∧
      s.folder.write? output (.bytes bytes) = some (name, folder) ∧
      { s with
        folder := folder
        written := (name, .bytes bytes) :: s.written
        said := [⟨.info, .commandLine, s!"Converted {input} -> {output} ({script.text})"⟩] ::
          s.said } = s' := by
  simp only [runConvert, if_false, Bool.false_eq_true, gives_bind_iff, gives_openScript_iff,
    gives_orFail_iff, gives_write_iff, gives_tell_iff]
  constructor
  · rintro ⟨script, _, ⟨hopen, rfl⟩, bytes, _, ⟨hcontent, rfl⟩, _, _,
      ⟨name, folder, hwrite, rfl⟩, rfl⟩
    exact ⟨script, bytes, name, folder, hopen, hcontent, hwrite, rfl⟩
  · rintro ⟨script, bytes, name, folder, hopen, hcontent, hwrite, rfl⟩
    exact ⟨script, s, ⟨hopen, rfl⟩, bytes, s, ⟨hcontent, rfl⟩, (), _,
      ⟨name, folder, hwrite, rfl⟩, rfl⟩

/-- A conversion into one file leaves a file that is opened as the script that was converted
exactly if its name is not one of a table. Under all other names the reader chooses the
container that was written; under these it takes a packed script for a table. -/
theorem openFile_converted_iff (h : Gives (Command.run (.convert input output false)) s () s') :
    ∃ script, openFile s.bytes? input = .ok script ∧
      (openFile s'.bytes? output = .ok script ↔ ¬NamesTable output) ∧
      (¬NamesTable output → ofPath output = forOutput output) ∧
      (NamesTable output →
        forOutput output = .packed ∧ ∃ dataPath, ofPath output = .split dataPath) := by
  obtain ⟨script, bytes, name, folder, hopen, hcontent, hwrite, rfl⟩ := gives_runConvert_iff.mp h
  have hread : folder.read? output = some (.bytes bytes) := Folder.read?_of_write? hwrite
  refine ⟨script, hopen, ?opened, ofPath_of_not_namesTable, ?table⟩
  case opened =>
    refine Script.openFile_eq_ok_iff_of_contentFor (Script.offset_lt_of_openFile hopen) hcontent ?_
    rw [Session.bytes?, hread]
    rfl
  case table => exact fun hnames => (exists_split_of_namesTable hnames).symm

/-- A script of one frame, and the file that holds it. -/
def oneFrame : Script := ⟨#[0], #[0], by simp⟩

def oneFile : Session := .start ⟨[("in.bin", .bytes #[0, 1, 0, 0, 0])], []⟩ "" []

theorem openFile_oneFile : openFile oneFile.bytes? "in.bin" = .ok oneFrame := by
  have hread : oneFile.bytes? "in.bin" = some #[0, 1, 0, 0, 0] := by cbv
  have hpath : ofPath "in.bin" = .packed := by decide
  rw [Script.openFile_eq_ok_iff, hpath]
  exact ⟨_, hread, Script.ofPacked_of_packed rfl⟩

theorem exists_gives_oneFile (output : String) (hpacked : forOutput output = .packed)
    (hwrite : oneFile.folder.write? output (.bytes #[0, 1, 0, 0, 0]) =
      some (output, oneFile.folder.insert output (.bytes #[0, 1, 0, 0, 0]))) :
    ∃ s', Gives (Command.run (.convert "in.bin" output false)) oneFile () s' ∧
      s'.folder = oneFile.folder.insert output (.bytes #[0, 1, 0, 0, 0]) := by
  have hcontent : oneFrame.contentFor (forOutput output) = .ok #[0, 1, 0, 0, 0] := by
    rw [hpacked]
    rfl
  exact ⟨_, gives_runConvert_iff.mpr ⟨_, _, _, _, openFile_oneFile, hcontent, hwrite, rfl⟩, rfl⟩

theorem one_frame_opens_again : ∃ s',
    Gives (Command.run (.convert "in.bin" "out.bin" false)) oneFile () s' ∧
      openFile s'.bytes? "out.bin" = .ok oneFrame := by
  obtain ⟨s', hgives, -⟩ := exists_gives_oneFile "out.bin" (by decide) (by cbv)
  obtain ⟨script, hopen, hagain, -⟩ := openFile_converted_iff hgives
  obtain rfl : oneFrame = script := Except.ok.inj (openFile_oneFile.symm.trans hopen)
  exact ⟨s', hgives, hagain.mpr (by decide)⟩

/-- Under the name of a table the packed script is not found again. -/
theorem one_frame_lost_as_table : ∃ s',
    Gives (Command.run (.convert "in.bin" "out.idx" false)) oneFile () s' ∧
      openFile oneFile.bytes? "in.bin" = .ok oneFrame ∧
      openFile s'.bytes? "out.idx" = .error .file := by
  obtain ⟨s', hgives, hfolder⟩ := exists_gives_oneFile "out.idx" (by decide) (by cbv)
  have hpath : ofPath "out.idx" = .split "out.dat" := by decide
  have hread : s'.bytes? "out.idx" = some #[0, 1, 0, 0, 0] := by
    rw [Session.bytes?, hfolder]
    cbv
  have hdata : s'.bytes? "out.dat" = none := by
    rw [Session.bytes?, hfolder]
    cbv
  refine ⟨s', hgives, openFile_oneFile, ?_⟩
  rw [openFile, hpath]
  simp [Script.openSplit, Script.readFile, hread, hdata, bind, Except.bind]

end Bitplane.CommandLine
