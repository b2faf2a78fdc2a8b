import Bitplane.Document.Toml.Moment
import Bitplane.Document.Toml.Number
import Bitplane.Document.Toml.Text

/-! # Reading TOML

Lines of `key = value` under table headers. Keys may be quoted and dotted, values
may be texts, numbers, truth values, moments, lists and inline tables; the last two
may spread over lines. Moments are kept as texts.
-/

namespace Bitplane.Document.Toml

/-! ## Keys and values -/

def isBare (c : Char) : Bool := c.isAlphanum || c == '_' || c == '-'

/-- A dotted key, behind the names in `found`, which are kept last first. -/
def key? : (fuel : Nat) → List String → List Char → Option (List String × List Char)
  | 0, _, _ => none
  | fuel + 1, found, cs =>
    let cs := skipSpace cs
    let name := match cs with
      | '"' :: _ | '\'' :: _ => text? cs
      | cs =>
        let bare := cs.takeWhile isBare
        if bare.isEmpty then none else some (String.ofList bare, cs.dropWhile isBare)
    match name with
    | none => none
    | some (name, rest) =>
      match skipSpace rest with
      | '.' :: rest => key? fuel (name :: found) rest
      | rest => some ((name :: found).reverse, rest)

/-- The members of a table with one of them changed, or added behind the others. -/
def alter (members : List (String × Document)) (name : String)
    (f : Option Document → Option Document) : Option (List (String × Document)) :=
  match members.lookup name with
  | none => (f none).map fun d => members ++ [(name, d)]
  | some d => (f (some d)).map fun d =>
    members.map fun (n, old) => if n == name then (n, d) else (n, old)

/-- Carries `f` to the member at the end of a path. A table that is missing on the
way is made, and a list stands for its last table. -/
def alterAt : (path : List String) → (f : Option Document → Option Document) →
    List (String × Document) → Option (List (String × Document))
  | [], _, _ => none
  | [name], f, members => alter members name f
  | name :: path, f, members =>
    alter members name fun
      | none => (alterAt path f []).map .table
      | some (.table inner) => (alterAt path f inner).map .table
      | some (.list items) =>
        match items.getLast? with
        | some (.table inner) =>
          (alterAt path f inner).map fun d => .list (items.dropLast ++ [.table d])
        | _ => none
      | some _ => none

def assign (path : List String) (value : Document) (members : List (String × Document)) :
    Option (List (String × Document)) :=
  alterAt path (fun
    | none => some value
    | some _ => none) members

mutual

def value? : (fuel : Nat) → List Char → Option (Document × List Char)
  | 0, _ => none
  | fuel + 1, cs =>
    match cs with
    | '"' :: _ | '\'' :: _ => (text? cs).map fun (s, rest) => (.text s, rest)
    | '[' :: rest => items? fuel [] rest
    | '\x7b' :: rest => members? fuel [] rest
    | cs =>
      match Moment.read? cs with
      | some (moment, rest) => some (.text moment, rest)
      | none =>
        let inWord (c : Char) : Bool := isBare c || c == '+' || c == '.'
        (word? (cs.takeWhile inWord)).map fun d => (d, cs.dropWhile inWord)

/-- The items of a list behind those in `found`, which are kept last first. -/
def items? : (fuel : Nat) → List Document → List Char → Option (Document × List Char)
  | 0, _, _ => none
  | fuel + 1, found, cs =>
    match skipFilling false cs with
    | ']' :: rest => some (.list found.reverse, rest)
    | cs =>
      match value? fuel cs with
      | none => none
      | some (item, rest) =>
        match skipFilling false rest with
        | ',' :: rest => items? fuel (item :: found) rest
        | ']' :: rest => some (.list (item :: found).reverse, rest)
        | _ => none

/-- The members of an inline table behind those given. -/
def members? : (fuel : Nat) → List (String × Document) → List Char →
    Option (Document × List Char)
  | 0, _, _ => none
  | fuel + 1, members, cs =>
    match skipFilling false cs with
    | '\x7d' :: rest => some (.table members, rest)
    | cs =>
      match key? (cs.length + 1) [] cs with
      | some (path, '=' :: rest) =>
        match value? fuel (skipSpace rest) with
        | none => none
        | some (d, rest) =>
          match assign path d members, skipFilling false rest with
          | some members, ',' :: rest => members? fuel members rest
          | some members, '\x7d' :: rest => some (.table members, rest)
          | _, _ => none
      | _ => none

end

/-! ## Lines -/

def openTable (path : List String) (members : List (String × Document)) :
    Option (List (String × Document)) :=
  alterAt path (fun
    | none => some (.table [])
    | some d => some d) members

def addTable (path : List String) (members : List (String × Document)) :
    Option (List (String × Document)) :=
  alterAt path (fun
    | none => some (.list [.table []])
    | some (.list items) => some (.list (items ++ [.table []]))
    | some _ => none) members

/-- The lines of a document, read into `members`; `path` is that of the last header. -/
def lines? : (fuel : Nat) → (path : List String) → List (String × Document) → List Char →
    Option (List (String × Document))
  | 0, _, _, _ => none
  | fuel + 1, path, members, cs =>
    match skipFilling false cs with
    | [] => some members
    | '[' :: '[' :: rest =>
      match key? (rest.length + 1) [] rest with
      | some (header, ']' :: ']' :: rest) =>
        match addTable header members, endLine? rest with
        | some members, some rest => lines? fuel header members rest
        | _, _ => none
      | _ => none
    | '[' :: rest =>
      match key? (rest.length + 1) [] rest with
      | some (header, ']' :: rest) =>
        match openTable header members, endLine? rest with
        | some members, some rest => lines? fuel header members rest
        | _, _ => none
      | _ => none
    | cs =>
      match key? (cs.length + 1) [] cs with
      | some (name, '=' :: rest) =>
        match value? (rest.length + 1) (skipSpace rest) with
        | none => none
        | some (d, rest) =>
          match assign (path ++ name) d members, endLine? rest with
          | some members, some rest => lines? fuel path members rest
          | _, _ => none
      | _ => none

/-- The document that a text spells; a mark of the order of bytes may stand in front. -/
def document? (text : String) : Option Document :=
  let cs := text.toList
  let cs := if cs.head? = some '\ufeff' then cs.drop 1 else cs
  (lines? (cs.length + 1) [] [] cs).map .table

end Bitplane.Document.Toml
