import Bitplane.CommandLine.Command
import Bitplane.Folder
import Bitplane.Image.Png
import Bitplane.Notice

/-! # Sessions

What a command works on: the files, what it has printed, what it has said and
which files it has written. A failure keeps all that happened before it.
-/

namespace Bitplane.CommandLine

inductive Content where
  | bytes (data : Bytes)
  | image (picture : Framebuffer)

def Content.toBytes : Content → Bytes
  | .bytes data => data
  | .image picture => Png.encode picture

inductive Failure where
  | fault (fault : Fault)
  | load (path : String)
  | revisionMissing (path : String)
  | revisionUnreadable (path : String)
  | revisionFields
  | colors
  | outputSize (width height : Nat)
  | frameRange (frame frameCount : Nat)
  | directory (path : String)
  | write (path : String)
  | noDirectory

def Failure.message : Failure → String
  | .fault cause => cause.message?.getD "Invalid document"
  | .load path => s!"Failed to load {path}"
  | .revisionMissing path => s!"Revision file {path} does not exist"
  | .revisionUnreadable path => s!"Revision file {path} cannot be read"
  | .revisionFields => "Invalid format revision configuration"
  | .colors => "Invalid --colors"
  | .outputSize width height => s!"Output size must be non-zero, got {width}x{height}"
  | .frameRange frame frameCount =>
    s!"Frame {frame} out of range (frame count: {frameCount})"
  | .directory path => s!"Failed to create output directory {path}"
  | .write path => s!"Failed to write {path}"
  | .noDirectory => "No such file or directory (os error 2)"

structure Session where
  folder : Folder Content
  /-- The words of the environment, by their names. -/
  words : List (String × String)
  /-- The mark of the words that replace fields of a revision. -/
  mark : String
  /-- The lines printed so far, the last one first. -/
  printed : List String
  /-- The notices given so far, the last ones first. -/
  said : List (List Notice)
  /-- The files written so far, the last one first. -/
  written : List (String × Content)

abbrev SessionM (α : Type) := ExceptT Failure (StateM Session) α

namespace SessionM

def print (line : String) : SessionM Unit :=
  modify fun s => { s with printed := line :: s.printed }

def say (notices : List Notice) : SessionM Unit :=
  modify fun s => { s with said := notices :: s.said }

def tell (text : String) : SessionM Unit := say [⟨.info, .commandLine, text⟩]

def readBytes? : SessionM (String → Option Bytes) := do
  let s ← get
  return fun path => (s.folder.read? path).map Content.toBytes

def write (path : String) (content : Content) (failure : Failure) : SessionM Unit := do
  let s ← get
  match s.folder.write? path content with
  | none => throw failure
  | some (name, folder) =>
    set { s with folder := folder, written := (name, content) :: s.written }

def makeDirectory (path : String) : SessionM Unit := do
  let s ← get
  match s.folder.makeDirectory? path with
  | none => throw (.directory path)
  | some folder => set { s with folder := folder }

/-- What a computation gives; its fault fails the command. -/
def orFail (result : Except Fault α) : SessionM α :=
  match result with
  | .ok a => pure a
  | .error fault => throw (.fault fault)

end SessionM

end Bitplane.CommandLine
