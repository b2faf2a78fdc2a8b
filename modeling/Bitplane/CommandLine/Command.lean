import Bitplane.CommandLine.Arguments
import Bitplane.Palette
import Bitplane.Revision
import Bitplane.Text.Numeral

/-! # Commands

What the program can be asked to do, and how the arguments say it.
-/

namespace Bitplane.CommandLine

structure ScriptChoice where
  path : String
  preset : Revision
  /-- A file that is laid over the preset. -/
  revisionPath : Option String

structure View where
  width : Nat
  height : Nat
  /-- Whether the source is scaled to the output. -/
  fit : Bool
  palette : Palette
  colors : List String

inductive Command where
  /-- Summarizes a script; `verbose` lists the frames that do not decode. -/
  | info (script : ScriptChoice) (verbose : Bool)
  /-- Lists the operations of one frame or of all; `hex` shows their bytes. -/
  | dump (script : ScriptChoice) (frame : Option Nat) (hex : Bool)
  /-- Renders frames to images, all or those up to `last`. -/
  | render (script : ScriptChoice) (output : String) (view : View) (last : Option Nat)
  /-- Plays a script; times are in milliseconds. What is played does not hang on
  `realtime`, which asks a caller to wait between ticks. -/
  | play (script : ScriptChoice) (view : View) (interval poll : Nat) (realtime : Bool)
  /-- Writes a script to another container; `split` makes two files. -/
  | convert (input output : String) (split : Bool)

namespace Command

def preset? : String → Option Revision
  | "four-plane" => some .fourPlane
  | "single-plane" => some .singlePlane
  | _ => none

def palette? : String → Option Palette
  | "layered" => some .layered
  | "monochrome" => some .monochrome
  | _ => none

def path? (word : String) : Option String := if word.isEmpty then none else some word

def number? (word : String) : Option Nat := Text.size? word.toList

def flag (name : String) (short : Option Char) : OptionSpec :=
  ⟨name, short, .flag, fun _ => true⟩

def valued (name : String) (short : Option Char) (read : String → Option α) : OptionSpec :=
  ⟨name, short, .single, fun word => (read word).isSome⟩

def scriptOptions : List OptionSpec :=
  [valued "preset" none preset?, valued "revision" none path?]

def viewOptions : List OptionSpec :=
  [valued "width" none number?, valued "height" none number?, flag "fit" none,
    valued "palette" none palette?, ⟨"colors", none, .repeated, fun _ => true⟩]

def valueOr? (s : Scanned) (name : String) (read : String → Option α) (default : α) : Option α :=
  match s.value? name with
  | none => some default
  | some word => read word

def optional? (s : Scanned) (name : String) (read : String → Option α) : Option (Option α) :=
  valueOr? s name (fun word => (read word).map some) none

def scriptChoice? (s : Scanned) (path : String) : Option ScriptChoice := do
  return {
    path := ← path? path
    preset := ← valueOr? s "preset" preset? .fourPlane
    revisionPath := ← optional? s "revision" path? }

def view? (s : Scanned) : Option View := do
  return {
    width := ← valueOr? s "width" number? 256
    height := ← valueOr? s "height" number? 204
    fit := s.has "fit"
    palette := ← valueOr? s "palette" palette? .layered
    colors := (s.values "colors").flatMap (·.splitOn ",") }

/-- The options of a command and the number of its positional arguments. -/
def shape? : String → Option (List OptionSpec × Nat)
  | "info" => some (scriptOptions ++ [flag "verbose" (some 'v')], 1)
  | "dump" => some (scriptOptions ++ [valued "frame" (some 'f') number?, flag "hex" none], 1)
  | "render" => some (scriptOptions ++ viewOptions ++ [valued "last" none number?], 2)
  | "play" =>
    some (scriptOptions ++ viewOptions ++
      [valued "interval" none number?, valued "poll" none number?, flag "realtime" none], 1)
  | "convert" => some ([flag "split" none], 2)
  | _ => none

def ofScanned? (name : String) (s : Scanned) : Option Command :=
  match name, s.positionals with
  | "info", [path] => do return .info (← scriptChoice? s path) (s.has "verbose")
  | "dump", [path] => do
    return .dump (← scriptChoice? s path) (← optional? s "frame" number?) (s.has "hex")
  | "render", [path, output] => do
    return .render (← scriptChoice? s path) (← path? output) (← view? s)
      (← optional? s "last" number?)
  | "play", [path] => do
    return .play (← scriptChoice? s path) (← view? s) (← valueOr? s "interval" number? 33)
      (← valueOr? s "poll" number? 10) (s.has "realtime")
  | "convert", [input, output] => do
    return .convert (← path? input) (← path? output) (s.has "split")
  | _, _ => none

/-- What a call for help gives: it names one command, or help itself, or nothing. -/
def helpOn : List String → Refusal
  | [] | ["help"] => .help
  | [name] => if (shape? name).isSome then .help else .usage
  | _ => .usage

def ofArguments : List String → Except Refusal Command
  | [] => .error .usage
  | "help" :: names => .error (helpOn names)
  | name :: words =>
    if name = "--help" ∨ name.startsWith "-h" then .error .help
    else if name = "--version" ∨ name.startsWith "-V" then .error .version
    else match shape? name with
      | none => .error .usage
      | some (specs, most) =>
        match scan specs most false none words .empty with
        | .error refusal => .error refusal
        | .ok s =>
          match ofScanned? name s with
          | some command => .ok command
          | none => .error .usage

end Command

end Bitplane.CommandLine
