import Bitplane.CommandLine.Run

/-! # The program

Looks up the files that a call names, runs its command on them, and carries out
what the command has printed, said and written.
-/

namespace Bitplane.CommandLine

/-- The mark of the words in the environment that replace fields of a revision. -/
def revisionMark : String := "BITPLANE_REVISION"

def revisionWords : IO (List (String × String)) := do
  let names := Revision.fieldNames.map fun field => revisionMark ++ "_" ++ field.toUpper
  names.filterMapM fun name => do
    return (← IO.getEnv name).map fun word => (name, word)

def lookAt (folder : Folder Content) (place : Place) : IO (Folder Content) := do
  let path := place.path
  match ← (IO.FS.readBinFile path).toBaseIO with
  | .ok data => return { folder with files := (path, .bytes data.data) :: folder.files }
  | .error (.inappropriateType ..) =>
    return { folder with directories := path :: folder.directories }
  | .error _ => return folder

def severityWord : Severity → String
  | .warn => "WARN"
  | .info => "INFO"
  | .debug => "DEBUG"
  | .trace => "TRACE"

def writeContent (path : String) (content : Content) : IO Unit := do
  let directory := "/".intercalate (path.splitOn "/").dropLast
  unless directory.isEmpty do IO.FS.createDirAll directory
  IO.FS.writeBinFile path ⟨content.toBytes⟩

def serve (arguments : List String) : IO UInt32 := do
  let folder ← (placesOf arguments).foldlM lookAt ⟨[], []⟩
  let outcome := run arguments (.start folder revisionMark (← revisionWords))
  IO.print outcome.printed
  for notice in Notice.upTo .info outcome.notices do
    IO.eprintln s!"[{severityWord notice.severity}] {notice.text}"
  for (path, content) in outcome.written do
    writeContent path content
  if let some failure := outcome.failure then
    IO.eprintln s!"Error: {failure.message}"
  if outcome.exit == 2 then IO.eprint helpText
  return outcome.exit.toUInt32

end Bitplane.CommandLine

def main (arguments : List String) : IO UInt32 := Bitplane.CommandLine.serve arguments
