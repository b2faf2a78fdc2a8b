/-! # Arguments

The words behind a program's name, told apart into a command, its options and
its positional arguments. A word that starts with a hyphen is an option unless
it is a hyphen alone; behind `--` nothing is. No option may be given twice
unless it collects its values. The words count in their order: the first one that
cannot be what it is meant as, or that asks for help, decides.
-/

namespace Bitplane.CommandLine

/-- How often an option may be given and whether it has a value. -/
inductive OptionKind where
  | flag | single | repeated
  deriving DecidableEq, Repr

structure OptionSpec where
  name : String
  short : Option Char
  kind : OptionKind
  /-- Whether a word can be its value. -/
  accepts : String → Bool

/-- The words of a command, told apart. A flag has an empty value. -/
structure Scanned where
  positionals : List String
  options : List (String × String)
  deriving Repr

namespace Scanned

def empty : Scanned := ⟨[], []⟩

/-- Adds a value of an option, unless the option is used up or does not accept it. -/
def add? (s : Scanned) (spec : OptionSpec) (value : String) : Option Scanned :=
  if spec.kind ≠ .repeated ∧ s.options.any (·.1 == spec.name) ∨ !spec.accepts value then none
  else some { s with options := s.options ++ [(spec.name, value)] }

def has (s : Scanned) (name : String) : Bool := s.options.any (·.1 == name)

def values (s : Scanned) (name : String) : List String :=
  (s.options.filter (·.1 == name)).map (·.2)

def value? (s : Scanned) (name : String) : Option String := s.options.lookup name

end Scanned

/-- What is wrong with the words, or what else they ask for than a command. -/
inductive Refusal where
  | usage | help | version
  deriving DecidableEq, Repr

def isValue (word : String) : Bool := word == "-" || !word.startsWith "-"

/-- The short options of one word, the last of which may have its value in the word. -/
def scanShorts (specs : List OptionSpec) : List Char → Scanned →
    Except Refusal (Scanned × Option OptionSpec)
  | [], s => .ok (s, none)
  | c :: rest, s =>
    if c = 'h' then .error .help
    else match specs.find? (·.short == some c) with
      | none => .error .usage
      | some spec =>
        if spec.kind = .flag then
          match s.add? spec "" with
          | some s => scanShorts specs rest s
          | none => .error .usage
        else
          let value := if rest.head? = some '=' then rest.drop 1 else rest
          if rest.isEmpty then .ok (s, some spec)
          else match s.add? spec (String.ofList value) with
            | some s => .ok (s, none)
            | none => .error .usage

/-- One long option, with its value behind an equals sign or in the next word. -/
def scanLong (specs : List OptionSpec) (word : List Char) (s : Scanned) :
    Except Refusal (Scanned × Option OptionSpec) :=
  let name := String.ofList (word.takeWhile (· != '='))
  let value := (word.dropWhile (· != '=')).drop 1
  let attached := word.contains '='
  if name = "help" then if attached then .error .usage else .error .help
  else match specs.find? (·.name == name) with
    | none => .error .usage
    | some spec =>
      if spec.kind = .flag then
        if attached then .error .usage
        else match s.add? spec "" with
          | some s => .ok (s, none)
          | none => .error .usage
      else if !attached then .ok (s, some spec)
      else match s.add? spec (String.ofList value) with
        | some s => .ok (s, none)
        | none => .error .usage

/-- Tells words apart; `owed` is an option that waits for its value, and `plain`
holds once nothing can be an option any more. Positional arguments are not empty. -/
def scan (specs : List OptionSpec) (most : Nat) : (plain : Bool) → (owed : Option OptionSpec) →
    List String → Scanned → Except Refusal Scanned
  | _, some _, [], _ => .error .usage
  | _, none, [], s => .ok s
  | plain, some spec, word :: rest, s =>
    if isValue word then
      match s.add? spec word with
      | some s => scan specs most plain none rest s
      | none => .error .usage
    else .error .usage
  | plain, none, word :: rest, s =>
    if plain || isValue word then
      if s.positionals.length < most ∧ !word.isEmpty then
        scan specs most plain none rest { s with positionals := s.positionals ++ [word] }
      else .error .usage
    else
      match word.toList with
      | ['-', '-'] => scan specs most true none rest s
      | '-' :: '-' :: name =>
        match scanLong specs name s with
        | .ok (s, owed) => scan specs most false owed rest s
        | .error refusal => .error refusal
      | _ :: shorts =>
        match scanShorts specs shorts s with
        | .ok (s, owed) => scan specs most false owed rest s
        | .error refusal => .error refusal
      | [] => .error .usage

end Bitplane.CommandLine
