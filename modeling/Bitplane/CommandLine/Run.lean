import Bitplane.CommandLine.Convert
import Bitplane.CommandLine.Inspect
import Bitplane.CommandLine.Show

/-! # Running commands

What becomes of the arguments of one call: an exit status, the text printed, a
failure, the notices and the files written.
-/

namespace Bitplane.CommandLine

def Command.run : Command → SessionM Unit
  | .info choice verbose => runInfo choice verbose
  | .dump choice frame hex => runDump choice frame hex
  | .render choice output view last => runRender choice output view last
  | .play choice view interval poll _ => runPlay choice view interval poll
  | .convert input output split => runConvert input output split

/-- The paths that a command reads or writes, those of single images apart. -/
def Command.paths : Command → List String
  | .info choice _ | .dump choice _ _ | .play choice _ _ _ _ => choice.paths
  | .render choice output _ _ => output :: choice.paths
  | .convert input output _ =>
    [output, FileName.withExtension output "idx", FileName.withExtension output "dat"] ++
      scriptPaths input

/-- The places that arguments ask about, with those on the way to them. -/
def placesOf (arguments : List String) : List Place :=
  match Command.ofArguments arguments with
  | .ok command => (command.paths.flatMap Folder.placesOn).eraseDups
  | .error _ => []

structure Outcome where
  exit : Nat
  printed : String
  failure : Option Failure
  notices : List Notice
  written : List (String × Content)

def helpText : String :=
  "Inspect, render and convert polygon animation scripts\n\n" ++
  "  info SCRIPT [-v]                  summarize a script and check every frame\n" ++
  "  dump SCRIPT [-f INDEX] [--hex]    list the draw operations of a script\n" ++
  "  render SCRIPT OUTPUT_DIR          render frames to PNG images\n" ++
  "  play SCRIPT                       simulate timed playback\n" ++
  "  convert INPUT OUTPUT [--split]    convert between JSON and packed containers\n"

def run (arguments : List String) (session : Session) : Outcome :=
  match Command.ofArguments arguments with
  | .error .usage => ⟨2, "", none, [], []⟩
  | .error .help => ⟨0, helpText, none, [], []⟩
  | .error .version => ⟨0, "0.1.0\n", none, [], []⟩
  | .ok command =>
    let (result, s) := command.run.run.run session
    let printed := String.join (s.printed.reverse.map (· ++ "\n"))
    let notices := s.said.reverse.flatten
    let written := s.written.reverse
    match result with
    | .ok () => ⟨0, printed, none, notices, written⟩
    | .error failure => ⟨1, printed, some failure, notices, written⟩

def Session.start (folder : Folder Content) (mark : String) (words : List (String × String)) :
    Session :=
  ⟨folder, words, mark, [], [], []⟩

end Bitplane.CommandLine
