import Bitplane.CommandLine.Load

/-! # Converting scripts

Writes a script into one file, whose name tells the container, or into the two
files of a split script.
-/

namespace Bitplane.CommandLine

open SessionM

def writeSplit (script : Script) (output : String) : SessionM Unit := do
  let tablePath := FileName.withExtension output "idx"
  let dataPath := FileName.withExtension output "dat"
  let (table, data) ← orFail (script.split.mapError .script)
  write tablePath (.bytes table) .noDirectory
  write dataPath (.bytes data) .noDirectory
  tell s!"Wrote {tablePath} and {dataPath}"

def runConvert (input output : String) (split : Bool) : SessionM Unit := do
  let script ← openScript input
  if split then writeSplit script output
  else
    let content ← orFail (script.contentFor (Script.Container.forOutput output))
    write output (.bytes content) (.write output)
    tell s!"Converted {input} -> {output} ({script.text})"

end Bitplane.CommandLine
