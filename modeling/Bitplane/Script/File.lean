import Bitplane.FileName
import Bitplane.Script.Document
import Bitplane.Script.Packed
import Bitplane.Text.Utf8

/-! # Script files

The container of a script file follows from its name: `.json` is a document,
`.idx` and `_index.bin` are the table of a split script whose stream is in the
sibling `.dat` or `_anim.bin`, and all else is packed.
-/

namespace Bitplane.Script

inductive Container where
  | document
  | packed
  /-- A table, with the path of its stream. -/
  | split (dataPath : String)
  deriving DecidableEq, Repr

namespace Container

def ofPath (path : String) : Container :=
  match FileName.replaceEnding? path "_index.bin" "_anim.bin" with
  | some dataPath => .split dataPath
  | none =>
    if FileName.hasExtension path "idx" then .split (FileName.withExtension path "dat")
    else if FileName.hasExtension path "json" then .document
    else .packed

/-- The container that is written to a path: a script goes into one file. -/
def forOutput (path : String) : Container :=
  if FileName.hasExtension path "json" then .document else .packed

end Container

def readFile (read? : String → Option Bytes) (path : String) : Except Fault Bytes :=
  match read? path with
  | some bytes => .ok bytes
  | none => .error .file

def openSplit (read? : String → Option Bytes) (tablePath dataPath : String) :
    Except Fault Script := do
  let table ← readFile read? tablePath
  let data ← readFile read? dataPath
  (ofSplit table data).mapError .script

/-- Opens a script by the name of its file; `read?` gives the content of a path. -/
def openFile (read? : String → Option Bytes) (path : String) : Except Fault Script :=
  match Container.ofPath path with
  | .split dataPath => openSplit read? path dataPath
  | .document => do ofJson (← readFile read? path)
  | .packed => do ofPacked (← readFile read? path)

/-- The content of a container in one file. -/
def contentFor (s : Script) : Container → Except Fault Bytes
  | .document => .ok (Text.toBytes s.json)
  | _ => s.packed.mapError .script

end Bitplane.Script
