/-!
# The files of a session

A session reads and writes files below a working directory. The directory holds one directory `dir`,
and no others can be made; everything else in it is a file with its bytes. A path is resolved to
the names that lead from the working directory to a file (`resolve`), part by part: a part can only
be looked up in a directory, and only if its name is not too long. The directories around the
working directory, up to the root, are known to be there and not to hold anything else.
-/

namespace StoragePlan

/-- Why a file cannot be read or written. -/
inductive FileFault where
  /-- There is no such file, or no such directory for it. -/
  | notFound
  /-- The path leads through a file. -/
  | notDirectory
  /-- The path leads to a directory. -/
  | isDirectory
  /-- The file holds no text. -/
  | notText
  /-- The path or a name in it is too long. -/
  | nameTooLong
  /-- The path has a null character. -/
  | nullInName
  deriving DecidableEq, Repr

namespace FileFault

/-- The text for the user. -/
def message : FileFault → String
  | notFound => "No such file or directory (os error 2)"
  | notDirectory => "Not a directory (os error 20)"
  | isDirectory => "Is a directory (os error 21)"
  | notText => "stream did not contain valid UTF-8"
  | nameTooLong => "File name too long (os error 36)"
  | nullInName => "file name contained an unexpected NUL byte"

end FileFault

/-- The names that lead to a file, the last first. Those of a place outside of the working directory
end with `..` or, for the root, with `/`. -/
abbrev Location := List String

/-- The files that were written, by their locations. -/
structure Files where
  /-- Each file with its bytes. -/
  contents : List (Location × ByteArray) := []

namespace Files

/-- Whether a location is a directory, which is there from the start. -/
def isDirectory (place : Location) : Bool :=
  place == ["dir"] || place == ["/"] || place.all (· == "..")

/-- The location around a directory. -/
def parent (place : Location) : Location :=
  if place = ["/"] then place else if place.all (· == "..") then ".." :: place else place.tail

/-- The longest name, in bytes. -/
def maxName : Nat := 255

/-- The longest path, in bytes. -/
def maxPath : Nat := 4095

/-- Goes on from a location by one part of a path. -/
def enter (files : Files) (place : Location) (part : String) : Except FileFault Location :=
  if (files.contents.lookup place).isSome then .error .notDirectory
  else if !isDirectory place then .error .notFound
  else if part = "" || part = "." then .ok place
  else if part = ".." then .ok (parent place)
  else if maxName < part.utf8ByteSize then .error .nameTooLong
  else .ok (part :: place)

/-- Where the parts of a path lead, from the root or from the working directory. -/
def walk (files : Files) : List String → Except FileFault Location
  | "" :: parts => parts.foldlM files.enter ["/"]
  | parts => parts.foldlM files.enter []

/-- The parts of a path. -/
def parts (path : String) : Except FileFault (List String) :=
  if path.contains '\x00' then .error .nullInName
  else if path.isEmpty then .error .notFound
  else if maxPath < path.utf8ByteSize then .error .nameTooLong
  else .ok (path.splitOn "/")

/-- Where a path leads. -/
def resolve (files : Files) (path : String) : Except FileFault Location := do
  files.walk (← parts path)

/-- Reads the bytes of a file. -/
def readBytes (files : Files) (path : String) : Except FileFault ByteArray := do
  let location ← files.resolve path
  if isDirectory location then throw .isDirectory
  match files.contents.lookup location with
  | some bytes => return bytes
  | none => throw .notFound

/-- Reads a file as text. -/
def readText (files : Files) (path : String) : Except FileFault String := do
  match String.fromUTF8? (← files.readBytes path) with
  | some text => return text
  | none => throw .notText

/-- The parts of a path that lead to the directory of its last name, which has to be one. -/
def untilLast (parts : List String) : List String :=
  ((parts.reverse.dropWhile (· == "")).drop 1).reverse ++ [""]

/-- Writes a file, in place of what it held. A path that ends with a slash can only be one of a
directory, and is not followed to its end. -/
def writeBytes (files : Files) (path : String) (bytes : ByteArray) : Except FileFault Files := do
  let parts ← parts path
  if path.endsWith "/" then
    discard (files.walk (untilLast parts))
    throw .isDirectory
  let location ← files.walk parts
  if isDirectory location then throw .isDirectory
  return ⟨(location, bytes) :: files.contents.filter fun (l, _) => l != location⟩

/-- Writes a text as a file. -/
def writeText (files : Files) (path text : String) : Except FileFault Files :=
  files.writeBytes path text.toUTF8

end Files

end StoragePlan
