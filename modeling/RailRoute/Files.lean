import RailRoute.Text.Basic

/-!
# Files

What a compilation may read is a function from paths to contents or to the reason why there are
none. `FileTree` is such a store held in memory: files below one working folder, with the folders
their names imply.
-/

namespace RailRoute

/-- Why a file cannot be read or written. -/
inductive FileError where
  | notFound
  | notADirectory
  | isADirectory
  | badName
  | nameTooLong
  | other (reason : String)
  deriving DecidableEq, Repr

/-- The system's text for a file error. -/
def FileError.message : FileError → String
  | .notFound => "No such file or directory (os error 2)"
  | .notADirectory => "Not a directory (os error 20)"
  | .isADirectory => "Is a directory (os error 21)"
  | .badName => "file name contained an unexpected NUL byte"
  | .nameTooLong => "File name too long (os error 36)"
  | .other reason => reason

/-- The files a compilation can read. -/
structure FileStore where
  read : String → Except FileError (List UInt8)

/-- Files and folders, each named by its place: the names on the way to it from the working folder.
Two dots at the beginning of a place lead out of the working folder, a slash to the outermost
folder. -/
structure FileTree where
  files : List (List String × List UInt8)
  folders : List (List String)

namespace FileTree

/-- The parts of a path that name something. -/
def nameParts (path : String) : List String :=
  ((Text.parts (· = '/') path.toList).filter fun p => !p.isEmpty && p != ['.']).map String.ofList

/-- The empty tree. -/
def empty : FileTree := ⟨[], []⟩

/-- Adds a file, or a folder if the name ends in a slash. -/
def add (t : FileTree) (name : String) (content : List UInt8) : FileTree :=
  if name.toList.getLast? = some '/' then { t with folders := nameParts name :: t.folders }
  else { t with files := (nameParts name, content) :: t.files }

/-- The content of the file at a place. -/
def fileAt? (t : FileTree) (place : List String) : Option (List UInt8) :=
  (t.files.find? (·.1 == place)).map (·.2)

/-- The place of the outermost folder. -/
def outermost : List String := ["/"]

/-- Whether a place is the working folder or a folder that holds it. -/
def holdsWorkingFolder (place : List String) : Bool :=
  place == outermost || place.all (· == "..")

/-- Whether a folder is at a place: the working folder, one that holds it, one that was added, or
one that holds something. -/
def isFolder (t : FileTree) (place : List String) : Bool :=
  holdsWorkingFolder place || t.folders.any (place.isPrefixOf ·) ||
    t.files.any fun f => place.isPrefixOf f.1 && place != f.1

/-- The place of the folder that holds the one at a given place. The outermost folder holds
itself. -/
def outside (place : List String) : List String :=
  if place == outermost then place
  else if holdsWorkingFolder place then place ++ [".."]
  else place.dropLast

/-- How many bytes a name in a folder may have. -/
def longestName : Nat := 255

/-- How many bytes a path may have. -/
def longestPath : Nat := 4095

/-- Follows the parts of a path from a folder on; every part has to be looked up in a folder. -/
def follow (t : FileTree) : List String → List (List Char) → Except FileError (List String)
  | place, [] => .ok place
  | place, p :: ps =>
    if t.isFolder place then
      if p.isEmpty || p == ['.'] then follow t place ps
      else if p == ['.', '.'] then follow t (outside place) ps
      else if longestName < (String.ofList p).utf8ByteSize then .error .nameTooLong
      else follow t (place ++ [String.ofList p]) ps
    else if (t.fileAt? place).isSome then .error .notADirectory
    else .error .notFound

/-- The parts of a path that can be followed. -/
def pathParts (path : String) : Except FileError (List (List Char)) :=
  if path.toList.contains '\x00' then .error .badName
  else if longestPath < path.utf8ByteSize then .error .nameTooLong
  else if path.isEmpty then .error .notFound
  else .ok (Text.parts (· = '/') path.toList)

/-- Where the parts of a path lead. An empty part before all others is the outermost folder. -/
def locate (t : FileTree) : List (List Char) → Except FileError (List String)
  | [] :: ps => t.follow outermost ps
  | ps => t.follow [] ps

/-- Reads a file of the tree. -/
def read (t : FileTree) (path : String) : Except FileError (List UInt8) := do
  let place ← t.locate (← pathParts path)
  if t.isFolder place then throw .isADirectory
  match t.fileAt? place with
  | some content => return content
  | none => throw .notFound

/-- The parts of a path that ends in a slash, with a dot for its last name: they lead to the folder
that would hold what is named. -/
def holderParts (parts : List (List Char)) : List (List Char) :=
  (parts.reverse.dropWhile (·.isEmpty)).tail.reverse ++ [['.']]

/-- Writes a file of the tree, which must lie in a folder that is there. A path that ends in a slash
cannot be that of a file, so its last name is not looked up. -/
def write (t : FileTree) (path : String) (content : List UInt8) : Except FileError FileTree := do
  let parts ← pathParts path
  let place ← t.locate (if parts.getLast? = some [] then holderParts parts else parts)
  if t.isFolder place then throw .isADirectory
  return { t with files := (place, content) :: t.files.filter (·.1 != place) }

/-- The store that reads from the tree. -/
def store (t : FileTree) : FileStore := ⟨t.read⟩

end FileTree

end RailRoute
