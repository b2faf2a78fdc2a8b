import Bitplane.Bytes

/-! # Folders

The files below one directory, the root. A path is followed name by name from there,
and all but its last name have to lead to directories.
-/

namespace Bitplane

/-- Where a path leads: names from the root down. Some `..` in front lead out of the
root, an empty name in front to the top of all directories. -/
abbrev Place := List String

namespace Place

def path (place : Place) : String := "/".intercalate place

/-- The names of a path, with an empty one wherever a slash has nothing on a side. -/
def names (path : String) : List String := (path.toList.splitOn '/').map String.ofList

/-- Where a path starts. -/
def start (path : String) : Place := if path.startsWith "/" then [""] else []

/-- The directory above a place. There is none above the top. -/
def above (place : Place) : Place :=
  if place == [""] then place
  else if place.all (· == "..") then place ++ [".."]
  else place.dropLast

def next (place : Place) (name : String) : Place :=
  if name.isEmpty || name == "." then place
  else if name == ".." then place.above
  else place ++ [name]

end Place

inductive Obstacle where
  /-- A directory on the way is missing. -/
  | missing
  /-- A file stands where a directory should, or a name is too long. -/
  | blocked
  deriving DecidableEq, Repr

/-- Files with a content of type `α`, by the paths of their places. -/
structure Folder (α : Type) where
  files : List (String × α)
  /-- The directories that hold no file yet. -/
  directories : List String

namespace Folder

/-- The greatest number of bytes of a name. -/
def longestName : Nat := 255

/-- The greatest number of bytes of a path. -/
def longestPath : Nat := 4095

/-- The places that a path passes, itself included. -/
def placesOn (path : String) : List Place :=
  ((Place.names path).foldl (fun places name =>
    (places.headD (.start path)).next name :: places) []).reverse

/-- The paths above a path as its text names them, the outermost first. -/
def pathsAbove (path : String) : List String :=
  let names := (Place.names path).filter fun n => !n.isEmpty && n != "."
  (List.range (names.length - 1)).map fun n =>
    (Place.start path ++ names.take (n + 1)).path

variable {α : Type} (f : Folder α)

def isFile (place : Place) : Bool := (f.files.lookup place.path).isSome

/-- Whether there is a directory at a place: the root and all above it, one that was
made, or one above a file. -/
def isDirectory (place : Place) : Bool :=
  let name := place.path
  place.all (· == "..") || place == [""] || f.directories.contains name ||
    f.files.any (·.1.startsWith (name ++ "/")) || f.directories.any (·.startsWith (name ++ "/"))

def follow (place : Place) (name : String) : Except Obstacle Place :=
  if f.isFile place then .error .blocked
  else if !f.isDirectory place then .error .missing
  else if longestName < name.utf8ByteSize then .error .blocked
  else .ok (place.next name)

def walk (path : String) (names : List String) : Except Obstacle Place :=
  if longestPath < path.utf8ByteSize then .error .blocked
  else names.foldlM f.follow (.start path)

/-- Where a path leads. A slash behind it asks for a directory. -/
def locate (path : String) : Except Obstacle Place :=
  if path.isEmpty then .error .missing else f.walk path (Place.names path)

def read? (path : String) : Option α :=
  match f.locate path with
  | .ok place => f.files.lookup place.path
  | .error _ => none

def hasDirectory (path : String) : Bool :=
  match f.locate path with
  | .ok place => f.isDirectory place
  | .error _ => false

def exists? (path : String) : Bool := f.hasDirectory path || (f.read? path).isSome

/-- Writes a file, which takes the place of an older one, and gives the path of its
place. Its directory has to be there. -/
def write? (path : String) (content : α) : Option (String × Folder α) :=
  match f.locate path with
  | .error _ => none
  | .ok place =>
    if f.isDirectory place then none
    else
      let name := place.path
      some (name, { f with files := (name, content) :: f.files.filter (·.1 != name) })

/-- Makes one directory, unless it is there. The slashes behind its path do not count. -/
def make (path : String) : Except Obstacle (Folder α) := do
  let names := ((Place.names path).reverse.dropWhile (·.isEmpty)).reverse
  let place ← f.walk path names
  if f.isFile place then .error .blocked
  else if f.isDirectory place then return f
  else return { f with directories := place.path :: f.directories }

/-- Makes a directory. If those above it are missing they are made first, as the text of
the path names them, and the path is followed once more. -/
def makeDirectory? (path : String) : Option (Folder α) :=
  match f.make path with
  | .ok made => some made
  | .error .blocked => none
  | .error .missing => (do ((← (pathsAbove path).foldlM make f).make path)).toOption

end Folder

end Bitplane
