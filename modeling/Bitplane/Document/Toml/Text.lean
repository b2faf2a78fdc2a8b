import Bitplane.Document
import Bitplane.Text.Numeral

/-! # Texts in TOML

What may stand between values, and texts in their four spellings: on one line or
as a block, with escapes or without.
-/

namespace Bitplane.Document.Toml

open Text

/-! ## Filling -/

def isSpace (c : Char) : Bool := c == ' ' || c == '\t'

def skipSpace (cs : List Char) : List Char := cs.dropWhile isSpace

/-- A text without the blanks, line ends and comments in front. -/
def skipFilling : (inComment : Bool) → List Char → List Char
  | _, [] => []
  | true, c :: rest => skipFilling (c != '\n') rest
  | false, '#' :: rest => skipFilling true rest
  | false, c :: rest =>
    if isSpace c || c == '\n' || c == '\r' then skipFilling false rest else c :: rest

/-- What follows the rest of a line, which has to be blank or a comment. -/
def endLine? (cs : List Char) : Option (List Char) :=
  match skipSpace cs with
  | [] => some []
  | '\n' :: rest => some rest
  | '\r' :: '\n' :: rest => some rest
  | '#' :: rest => some ((rest.dropWhile (· != '\n')).drop 1)
  | _ => none

/-! ## Texts -/

def numbered? (count : Nat) (cs : List Char) : Option (Char × List Char) := do
  let digits := cs.take count
  if digits.length < count then none
  let code ← digits.foldlM (fun n c => (hexValue? c).map (n * 16 + ·)) 0
  if h : code.isValidChar then return (Char.ofNatAux code h, cs.drop count) else none

def escaped? : List Char → Option (Char × List Char)
  | 'b' :: rest => some ('\x08', rest)
  | 't' :: rest => some ('\t', rest)
  | 'n' :: rest => some ('\n', rest)
  | 'f' :: rest => some ('\x0c', rest)
  | 'r' :: rest => some ('\r', rest)
  | 'e' :: rest => some ('\x1b', rest)
  | '"' :: rest => some ('"', rest)
  | '\\' :: rest => some ('\\', rest)
  | 'x' :: rest => numbered? 2 rest
  | 'u' :: rest => numbered? 4 rest
  | 'U' :: rest => numbered? 8 rest
  | _ => none

/-- How a text ends and whether it has escapes. -/
structure Quoting where
  quote : Char
  block : Bool
  escapes : Bool

/-- A text up to its closing quotes, behind the characters in `found`, which are
kept last first. -/
def quoted? (q : Quoting) : (fuel : Nat) → List Char → List Char →
    Option (List Char × List Char)
  | 0, _, _ => none
  | fuel + 1, found, cs =>
    match cs with
    | [] => none
    | '\n' :: rest => if q.block then quoted? q fuel ('\n' :: found) rest else none
    | '\\' :: rest =>
      if !q.escapes then quoted? q fuel ('\\' :: found) rest
      else
        let ended := skipSpace rest
        if q.block && (ended.head? == some '\n' || ended.take 2 == ['\r', '\n']) then
          quoted? q fuel found (ended.dropWhile fun c => isSpace c || c == '\n' || c == '\r')
        else match escaped? rest with
          | some (c, rest) => quoted? q fuel (c :: found) rest
          | none => none
    | c :: rest =>
      if c != q.quote then quoted? q fuel (c :: found) rest
      else if !q.block then some (found.reverse, rest)
      else
        let run := cs.takeWhile (· == q.quote)
        let kept := min run.length 5
        if run.length < 3 then quoted? q fuel (c :: found) rest
        else some ((List.replicate (kept - 3) c ++ found).reverse, cs.drop kept)

/-- A block of text without the line end right behind its opening quotes. -/
def openBlock : List Char → List Char
  | '\n' :: rest => rest
  | '\r' :: '\n' :: rest => rest
  | cs => cs

def text? (cs : List Char) : Option (String × List Char) :=
  let read (q : Quoting) (cs : List Char) :=
    (quoted? q (cs.length + 1) [] cs).map fun (found, rest) => (String.ofList found, rest)
  match cs with
  | '"' :: '"' :: '"' :: rest => read ⟨'"', true, true⟩ (openBlock rest)
  | '\'' :: '\'' :: '\'' :: rest => read ⟨'\'', true, false⟩ (openBlock rest)
  | '"' :: rest => read ⟨'"', false, true⟩ rest
  | '\'' :: rest => read ⟨'\'', false, false⟩ rest
  | _ => none

end Bitplane.Document.Toml
