import Bitplane.CommandLine.Session
import Bitplane.Document.Toml.Reader
import Bitplane.Revision.Settings
import Bitplane.Script.File
import Bitplane.Text.Repair

/-! # Loading

The script and the revision that a command works with.
-/

namespace Bitplane.CommandLine

open SessionM

def scriptPaths (path : String) : List String :=
  match Script.Container.ofPath path with
  | .split dataPath => [path, dataPath]
  | _ => [path]

def revisionExtensions : List String := ["toml", "json"]

/-- The files beside a directory that stand for it as a revision. -/
def revisionsBeside (path : String) : List String :=
  revisionExtensions.filterMap (FileName.addExtension? path)

def ScriptChoice.paths (choice : ScriptChoice) : List String :=
  scriptPaths choice.path ++
    choice.revisionPath.toList.flatMap fun path => path :: revisionsBeside path

def openScript (path : String) : SessionM Script := do
  match Script.openFile (← readBytes?) path with
  | .ok script => return script
  | .error _ => throw (.load path)

def loadScript (choice : ScriptChoice) : SessionM Script := do
  let script ← openScript choice.path
  tell s!"Loaded {choice.path}: {script.text}"
  return script

/-- The settings in a revision file, in the format that its extension names. The file
is a text, repaired where its bytes spell none. -/
def revisionSettings? (path : String) (data : Bytes) : Option Document.Settings :=
  let text := Text.repaired (Text.withoutMark data)
  let d? := match FileName.extension? path with
    | some "json" =>
      ((Document.Json.document? (Text.toBytes text)).filter (Document.isSound 127)).map
        Document.withoutRepeats
    | some "toml" => Document.Toml.document? text
    | _ => none
  match d? with
  | some (.table settings) => some settings
  | _ => none

def revisionLayer (choice : ScriptChoice) : SessionM Document.Settings := do
  let some path := choice.revisionPath | return []
  let folder := (← get).folder
  unless folder.exists? path do throw (.revisionMissing path)
  let paths := if folder.hasDirectory path then revisionsBeside path else [path]
  let read? ← readBytes?
  match paths.findSome? fun path => (read? path).bind (revisionSettings? path) with
  | some settings => return settings
  | none => throw (.revisionUnreadable path)

/-- The revision of a command: the preset, a file over it, and words over both. -/
def loadRevision (choice : ScriptChoice) : SessionM Revision := do
  let layer ← revisionLayer choice
  let s ← get
  match choice.preset.ofSettings? [layer, Revision.namedSettings s.mark s.words] with
  | none => throw .revisionFields
  | some revision =>
    orFail (revision.validate.mapError .revision)
    tell s!"Format revision: {revision.text}"
    return revision

end Bitplane.CommandLine
