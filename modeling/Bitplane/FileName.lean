/-! # File names

The parts of a path with `/` between its directories: the last name, what stands
before it, and the extension behind the last point of the name.
-/

namespace Bitplane.FileName

/-- A reversed path without the slashes and points behind its last name. -/
def dropTail : List Char → List Char
  | '/' :: rest => dropTail rest
  | '.' :: '/' :: rest => dropTail rest
  | cs => cs

/-- The directories of a path, up to the last slash, and the name behind it. -/
def split? (path : String) : Option (List Char × List Char) :=
  let reversed := dropTail path.toList.reverse
  let name := (reversed.takeWhile (· != '/')).reverse
  if name = [] ∨ name = ['.'] ∨ name = ['.', '.'] then none
  else some ((reversed.dropWhile (· != '/')).reverse, name)

/-- A name's stem and extension; a point in front starts no extension. -/
def splitName (name : List Char) : List Char × Option (List Char) :=
  let reversed := name.reverse
  let stem := (reversed.dropWhile (· != '.')).drop 1
  if stem = [] then (name, none)
  else (stem.reverse, some (reversed.takeWhile (· != '.')).reverse)

def extension? (path : String) : Option String := do
  let (_, name) ← split? path
  (splitName name).2.map String.ofList

/-- Whether the extension of a path is `extension` in letters of any case. -/
def hasExtension (path extension : String) : Bool :=
  match extension? path with
  | some found => found.toList.map Char.toLower == extension.toList
  | none => false

def addExtension? (path extension : String) : Option String := do
  let (directory, name) ← split? path
  return String.ofList (directory ++ name ++ '.' :: extension.toList)

def setExtension (path extension : String) : String :=
  match split? path with
  | none => path
  | some (directory, name) =>
    String.ofList (directory ++ (splitName name).1 ++ '.' :: extension.toList)

/-- A path with another extension. The old one is cut off first: what is left of `..x`
has no name, and stays as it is. -/
def withExtension (path extension : String) : String :=
  let kept := path.length - ((extension? path).map String.length).getD 0
  setExtension (String.ofList (path.toList.take kept)) extension

/-- A path whose name ends in `old`, with `new` at its place. -/
def replaceEnding? (path old new : String) : Option String := do
  let (directory, name) ← split? path
  let kept := name.length - old.toList.length
  if old.toList.isSuffixOf name then
    return String.ofList (directory ++ name.take kept ++ new.toList)
  none

def join (directory name : String) : String :=
  if directory.isEmpty || directory.endsWith "/" then directory ++ name
  else directory ++ "/" ++ name

end Bitplane.FileName
