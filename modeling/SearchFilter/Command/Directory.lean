import SearchFilter.Octets.Utf8

namespace SearchFilter

/-- Why a file cannot be read. -/
inductive FileFault where
  | missing
  /-- A file stands where the path goes on. -/
  | notDirectory
  | isDirectory
  | nameTooLong
  /-- The content is no text. -/
  | notText
  | other (reason : String)
  deriving DecidableEq, Repr

/-- What is said of a file that cannot be read. -/
def FileFault.message : FileFault → String
  | missing => "No such file or directory (os error 2)"
  | notDirectory => "Not a directory (os error 20)"
  | isDirectory => "Is a directory (os error 21)"
  | nameTooLong => "File name too long (os error 36)"
  | notText => "stream did not contain valid UTF-8"
  | other reason => reason

/-- A directory: the files in it and below it, each with the names on the way to it. -/
structure Directory where
  files : List (List (List Char) × Octets)
  /-- Whether the directory is its own parent. -/
  isTop : Bool
  deriving Repr

namespace Directory

/-- The names of a path, with slashes between them. -/
def names : List Char → List (List Char)
  | [] => [[]]
  | c :: cs =>
    if c = '/' then [] :: names cs
    else
      match names cs with
      | [] => [[c]]
      | name :: rest => (c :: name) :: rest

/-- The working directory with these files. -/
def ofFiles (files : List (String × Octets)) : Directory :=
  { files := files.map fun file => (names file.1.toList, file.2), isTop := false }

/-- The directory at the top. -/
def top : Directory :=
  { files := [(names "dev/null".toList, [])], isTop := true }

/-- A directory of which nothing is known. -/
def unknown : Directory :=
  { files := [], isTop := true }

/-- How many octets a name may have. -/
def nameLimit : Nat := 255

/-- How many octets a path may have. -/
def pathLimit : Nat := 4095

/-- Follows the names `path` from the directory at `place` below `d`. -/
def follow (d : Directory) (place : List (List Char)) : (path : List (List Char)) →
    Except FileFault Octets
  | [] => .error .isDirectory
  | name :: path =>
    if name.isEmpty || name == ['.'] then follow d place path
    else if name == ['.', '.'] then
      if place.isEmpty && !d.isTop then follow unknown [] path else follow d place.dropLast path
    else if nameLimit < (Utf8.encodeChars name).length then .error .nameTooLong
    else
      let place := place ++ [name]
      match d.files.lookup place with
      | some content => if path.isEmpty then .ok content else .error .notDirectory
      | none =>
        if d.files.any (fun file => place.isPrefixOf file.1) then follow d place path
        else .error .missing

/-- What the file at a path holds. The path is followed name by name from the working directory or
from the top; of what lies outside the working directory nothing is known but the empty device. -/
def read (d : Directory) (path : String) : Except FileFault Octets :=
  if pathLimit < path.utf8ByteSize then .error .nameTooLong
  else if path.startsWith "/" then follow top [] (names path.toList)
  else follow d [] (names path.toList)

/-- The text in the file at a path. -/
def readText (d : Directory) (path : String) : Except FileFault String := do
  match Utf8.decode? (← d.read path) with
  | some text => return text
  | none => throw .notText

end Directory

end SearchFilter
