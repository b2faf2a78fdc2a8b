import Bitplane.Text.Numeral

/-! # Moments in TOML

Dates and times of day, and both together with or without an offset from universal
time. They have one spelling each: a `T` between date and time, at most nine digits
of a second and no zeros behind them, a `Z` for universal time.
-/

namespace Bitplane.Document.Toml.Moment

open Text

/-- What is read at the front of a text, as it is spelled, and what follows it. -/
abbrev Part := Option (List Char × List Char)

def digits? (mark : Option Char) (count : Nat) (cs : List Char) : Part :=
  let behind := cs.drop mark.toList.length
  let found := behind.take count
  if cs.take mark.toList.length = mark.toList ∧ found.length = count ∧ found.all isDigit then
    some (mark.toList ++ found, behind.drop count)
  else none

def optional (read : List Char → Part) (cs : List Char) : List Char × List Char :=
  (read cs).getD ([], cs)

def inOrder : List (List Char → Part) → List Char → Part
  | [], cs => some ([], cs)
  | read :: others, cs => do
    let (first, rest) ← read cs
    let (second, rest) ← inOrder others rest
    return (first ++ second, rest)

def date? : List Char → Part :=
  inOrder [digits? none 4, digits? (some '-') 2, digits? (some '-') 2]

/-- The digits of a second behind a point: nine count, and the zeros behind them do not. -/
def fraction? : List Char → Part
  | '.' :: rest =>
    let found := (rest.takeWhile isDigit).take 9
    let kept := (found.reverse.dropWhile (· == '0')).reverse
    if found.isEmpty then none
    else some ('.' :: (if kept.isEmpty then ['0'] else kept), rest.dropWhile isDigit)
  | _ => none

def seconds? : List Char → Part :=
  inOrder [digits? (some ':') 2, fun cs => some (optional fraction? cs)]

/-- A time of day: the seconds may be missing. -/
def time? : List Char → Part :=
  inOrder [digits? none 2, digits? (some ':') 2, fun cs => some (optional seconds? cs)]

/-- An offset; that of no time at all has a plus sign. -/
def offset? : List Char → Part
  | 'Z' :: rest | 'z' :: rest => some (['Z'], rest)
  | sign :: rest =>
    if sign != '+' && sign != '-' then none
    else do
      let (found, rest) ← inOrder [digits? none 2, digits? (some ':') 2] rest
      let isNone := found.all fun c => c == '0' || c == ':'
      return ((if isNone then '+' else sign) :: found, rest)
  | [] => none

def timeOfDate? : List Char → Part
  | mark :: rest =>
    if mark != 'T' && mark != 't' && mark != ' ' then none
    else do
      let (time, rest) ← time? rest
      let (offset, rest) := optional offset? rest
      return ('T' :: time ++ offset, rest)
  | [] => none

def read? (cs : List Char) : Option (String × List Char) :=
  let moment := match date? cs with
    | some (date, rest) =>
      let (time, rest) := optional timeOfDate? rest
      some (date ++ time, rest)
    | none => time? cs
  moment.map fun (found, rest) => (String.ofList found, rest)

end Bitplane.Document.Toml.Moment
