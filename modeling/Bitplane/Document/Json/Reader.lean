import Bitplane.Document.Json.Number
import Bitplane.Text.Utf8

/-! # Reading JSON

The strict grammar: no comments, no trailing commas, no zeros in front of a
number, no control characters inside a text, nothing behind the document but
blanks. The reader goes over octets; only texts have to be UTF-8, and of those
only the ones that are looked at.
-/

namespace Bitplane.Document.Json

open Text

def isBlank (c : Char) : Bool := c == ' ' || c == '\t' || c == '\n' || c == '\r'

def skipBlanks (cs : List Char) : List Char := cs.dropWhile isBlank

/-- A piece of a text: an octet, or a unit of sixteen bits given by number. -/
inductive TextPart where
  | octet (c : Char)
  | unit (code : Nat)
  deriving DecidableEq, Repr

def escaped? : Char → Option Char
  | '"' => some '"'
  | '\\' => some '\\'
  | '/' => some '/'
  | 'b' => some '\x08'
  | 'f' => some '\x0c'
  | 'n' => some '\n'
  | 'r' => some '\r'
  | 't' => some '\t'
  | _ => none

def unit? (a b c d : Char) : Option Nat := do
  return (((← hexValue? a) * 16 + (← hexValue? b)) * 16 + (← hexValue? c)) * 16 + (← hexValue? d)

/-- The pieces of a text up to its closing quote, behind those in `found`, which
are kept last first. -/
def textParts (found : List TextPart) : List Char → Option (List TextPart × List Char)
  | [] => none
  | '"' :: rest => some (found.reverse, rest)
  | '\\' :: 'u' :: a :: b :: c :: d :: rest =>
    match unit? a b c d with
    | some code => textParts (.unit code :: found) rest
    | none => none
  | '\\' :: c :: rest =>
    match escaped? c with
    | some c => textParts (.octet c :: found) rest
    | none => none
  | c :: rest => if c.toNat < 0x20 then none else textParts (.octet c :: found) rest

def isHighHalf (code : Nat) : Bool := 0xD800 ≤ code && code < 0xDC00

def isLowHalf (code : Nat) : Bool := 0xDC00 ≤ code && code < 0xE000

/-- The bytes that pieces make up, unless half of a surrogate pair is left over. -/
def partBytes : List TextPart → Option (List UInt8)
  | [] => some []
  | .octet c :: rest => (partBytes rest).map (octetByte c :: ·)
  | .unit high :: .unit low :: rest =>
    if isHighHalf high && isLowHalf low then
      let code := 0x10000 + (high - 0xD800) * 0x400 + (low - 0xDC00)
      (partBytes rest).map (charBytes (Char.ofNat code) ++ ·)
    else if isHighHalf high || isLowHalf high then none
    else (partBytes (.unit low :: rest)).map (charBytes (Char.ofNat high) ++ ·)
  | .unit code :: rest =>
    if isHighHalf code || isLowHalf code then none
    else (partBytes rest).map (charBytes (Char.ofNat code) ++ ·)

def joinParts (parts : List TextPart) : Option String :=
  (partBytes parts).bind fun bytes => ofBytes? bytes.toArray

def ofParts (parts : List TextPart) : Document :=
  match joinParts parts with
  | some s => .text s
  | none => .illFormed

mutual

/-- The value at the front of a text, and what follows it. Each value takes up one
`fuel`, so the length of the text is enough. -/
def value? : (fuel : Nat) → List Char → Option (Document × List Char)
  | 0, _ => none
  | fuel + 1, cs =>
    match skipBlanks cs with
    | '\x7b' :: rest =>
      match skipBlanks rest with
      | '\x7d' :: rest => some (.table [], rest)
      | rest => members? fuel (some []) rest
    | '[' :: rest =>
      match skipBlanks rest with
      | ']' :: rest => some (.list [], rest)
      | rest => items? fuel [] rest
    | '"' :: rest =>
      match textParts [] rest with
      | some (parts, rest) => some (ofParts parts, rest)
      | none => none
    | 't' :: 'r' :: 'u' :: 'e' :: rest => some (.bool true, rest)
    | 'f' :: 'a' :: 'l' :: 's' :: 'e' :: rest => some (.bool false, rest)
    | 'n' :: 'u' :: 'l' :: 'l' :: rest => some (.null, rest)
    | cs => number? cs

def items? : (fuel : Nat) → List Document → List Char → Option (Document × List Char)
  | 0, _, _ => none
  | fuel + 1, found, cs =>
    match value? fuel cs with
    | none => none
    | some (item, rest) =>
      match skipBlanks rest with
      | ',' :: rest => items? fuel (item :: found) rest
      | ']' :: rest => some (.list (item :: found).reverse, rest)
      | _ => none

/-- The members of a table behind those in `found`, which are kept last first and
given up once a name is ill formed. -/
def members? : (fuel : Nat) → (found : Option (List (String × Document))) → List Char →
    Option (Document × List Char)
  | 0, _, _ => none
  | fuel + 1, found, cs =>
    match skipBlanks cs with
    | '"' :: rest =>
      match textParts [] rest with
      | none => none
      | some (parts, rest) =>
        match skipBlanks rest with
        | ':' :: rest =>
          match value? fuel rest with
          | none => none
          | some (item, rest) =>
            let found := found.bind fun found =>
              (joinParts parts).map fun name => (name, item) :: found
            match skipBlanks rest with
            | ',' :: rest => members? fuel found rest
            | '\x7d' :: rest =>
              some (found.elim .illFormed fun found => .table found.reverse, rest)
            | _ => none
        | _ => none
    | _ => none

end

def front? (cs : List Char) : Option (Document × List Char) := value? (cs.length + 1) cs

/-- The document that bytes spell, read into a value. What follows the document is
looked at last: it has to be blank. -/
def read {α ε : Type} (data : Bytes) (meaning : Document → Except ε α) (malformed : ε) :
    Except ε α :=
  match front? (octets data) with
  | none => .error malformed
  | some (d, rest) =>
    match meaning d with
    | .error e => .error e
    | .ok a => if (skipBlanks rest).isEmpty then .ok a else .error malformed

def document? (data : Bytes) : Option Document :=
  (read data .ok () : Except Unit Document).toOption

end Bitplane.Document.Json
