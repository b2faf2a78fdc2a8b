import Bitplane.Decimal.Shortest
import Bitplane.Document
import Bitplane.Text.Numeral

/-! # Writing JSON

Documents on one line without blanks, or spread over lines with two blanks per
level. Both spell texts alike.
-/

namespace Bitplane.Document.Json

def textChar (c : Char) : List Char :=
  match c with
  | '"' => ['\\', '"']
  | '\\' => ['\\', '\\']
  | '\x08' => ['\\', 'b']
  | '\x0c' => ['\\', 'f']
  | '\n' => ['\\', 'n']
  | '\r' => ['\\', 'r']
  | '\t' => ['\\', 't']
  | c =>
    if c.toNat < 0x20 then ['\\', 'u'] ++ Text.padLeft '0' 4 (Nat.toDigits 16 c.toNat) else [c]

def textChars (s : String) : List Char := '"' :: s.toList.flatMap textChar ++ ['"']

def intChars : Int → List Char
  | .ofNat n => Nat.toDigits 10 n
  | .negSucc n => '-' :: Nat.toDigits 10 (n + 1)

/-- A number that is not whole or not meant to be; infinity and what is no number have
no spelling. -/
def realChars (x : Float) : List Char :=
  let cs := (Decimal.text x).toList
  if !x.isFinite then "null".toList else if cs.contains '.' then cs else cs ++ ['.', '0']

def leafChars : Document → List Char
  | .null => "null".toList
  | .bool true => "true".toList
  | .bool false => "false".toList
  | .int n => intChars n
  | .real x => realChars x
  | .text s => textChars s
  | .illFormed => "\"\\ud800\"".toList
  | .list _ => "[]".toList
  | .table _ => ['\x7b', '\x7d']

mutual

def compactChars : Document → List Char
  | .list items => '[' :: compactItems items ++ [']']
  | .table members => '\x7b' :: compactMembers members ++ ['\x7d']
  | d => leafChars d

def compactItems : List Document → List Char
  | [] => []
  | [d] => compactChars d
  | d :: rest => compactChars d ++ ',' :: compactItems rest

def compactMembers : List (String × Document) → List Char
  | [] => []
  | [(name, d)] => textChars name ++ ':' :: compactChars d
  | (name, d) :: rest => textChars name ++ ':' :: compactChars d ++ ',' :: compactMembers rest

end

def compact (d : Document) : String := String.ofList (compactChars d)

def newLine (level : Nat) : List Char := '\n' :: List.replicate (2 * level) ' '

mutual

/-- A document over several lines, from a line at `level` on. -/
def prettyChars (level : Nat) : Document → List Char
  | .list (d :: rest) =>
    '[' :: newLine (level + 1) ++ prettyItems (level + 1) (d :: rest) ++ newLine level ++ [']']
  | .table (d :: rest) =>
    '\x7b' :: newLine (level + 1) ++ prettyMembers (level + 1) (d :: rest) ++ newLine level ++
      ['\x7d']
  | d => leafChars d

def prettyItems (level : Nat) : List Document → List Char
  | [] => []
  | [d] => prettyChars level d
  | d :: rest => prettyChars level d ++ ',' :: newLine level ++ prettyItems level rest

def prettyMembers (level : Nat) : List (String × Document) → List Char
  | [] => []
  | [(name, d)] => textChars name ++ ':' :: ' ' :: prettyChars level d
  | (name, d) :: rest =>
    textChars name ++ ':' :: ' ' :: prettyChars level d ++ ',' :: newLine level ++
      prettyMembers level rest

end

def pretty (d : Document) : String := String.ofList (prettyChars 0 d)

end Bitplane.Document.Json
