/-!
# Files

What can go wrong with a file, and a system of files in memory in which paths are looked up as on a
disk: the parts of a path are entered one after the other, from the root or from the working folder,
and each that is entered from must be a folder.
-/

namespace SpriteStage

inductive FileError where
  | notFound
  | isFolder
  | notAFolder
  | nameTooLong
  | denied
  | notText
  /-- Anything else, in the words of the system. -/
  | other (words : String)
deriving DecidableEq, Repr

def FileError.message : FileError → String
  | .notFound => "No such file or directory (os error 2)"
  | .denied => "Permission denied (os error 13)"
  | .notAFolder => "Not a directory (os error 20)"
  | .isFolder => "Is a directory (os error 21)"
  | .nameTooLong => "File name too long (os error 36)"
  | .notText => "stream did not contain valid UTF-8"
  | .other words => words

def textOfBytes (bytes : ByteArray) : Except FileError String :=
  match String.fromUTF8? bytes with
  | some s => .ok s
  | none => .error .notText

/-- Files and folders by the names on the way from the root to them. -/
structure FileSystem where
  files : List (List String × ByteArray)
  folders : List (List String)
  /-- The folder from which relative paths lead on. -/
  working : List String

namespace FileSystem

inductive Place where
  | file (bytes : ByteArray)
  | folder
  | missing

/-- What lies in a place. A folder is there when it is listed or something lies in it. -/
def placeOf (s : FileSystem) (names : List String) : Place :=
  match s.files.find? fun file => file.1 = names with
  | some (_, bytes) => .file bytes
  | none =>
    if names.isEmpty ||
        (s.working :: s.folders ++ s.files.map Prod.fst).any fun other => names.isPrefixOf other
    then .folder
    else .missing

/-- A place that is entered from must be a folder. -/
def checkFolder (s : FileSystem) (here : List String) : Except FileError Unit :=
  match s.placeOf here with
  | .folder => .ok ()
  | .file _ => .error .notAFolder
  | .missing => .error .notFound

def maxNameSize : Nat := 255

/-- The number of bytes from which on a path is too long. -/
def pathLimit : Nat := 4096

def parts (path : String) : List String := (path.splitOn "/").filter fun p => p ≠ ""

/-- Enters a part of a path from a place: one point stays, two lead back, and above the root there
is nothing but the root. -/
def enter (s : FileSystem) (here : List String) (part : String) :
    Except FileError (List String) := do
  s.checkFolder here
  if part = "." then return here
  else if part = ".." then return here.dropLast
  else if maxNameSize < part.utf8ByteSize then .error .nameTooLong
  else return here ++ [part]

def follow (s : FileSystem) (path : String) (ps : List String) : Except FileError (List String) :=
  if path.isEmpty then .error .notFound
  else if pathLimit ≤ path.utf8ByteSize then .error .nameTooLong
  else ps.foldlM s.enter (if path.startsWith "/" then [] else s.working)

/-- Whether a path ends in a name with a slash behind it, so that it can only mean a folder. -/
def namesFolder (path : String) : Bool :=
  path.endsWith "/" && match (parts path).getLast? with
    | none => false
    | some last => last ≠ "." && last ≠ ".."

def read (s : FileSystem) (path : String) : Except FileError ByteArray := do
  match s.placeOf (← s.follow path (parts path)) with
  | .file bytes => if namesFolder path then .error .notAFolder else return bytes
  | .folder => .error .isFolder
  | .missing => .error .notFound

/-- Opens the file at a path for writing at its end; a file that is missing is made. Whatever lies
at a path that names a folder, it is refused as one. -/
def append (s : FileSystem) (path : String) : Except FileError FileSystem := do
  if namesFolder path then
    s.checkFolder (← s.follow path (parts path).dropLast)
    .error .isFolder
  else
    let place ← s.follow path (parts path)
    match s.placeOf place with
    | .file _ => return s
    | .folder => .error .isFolder
    | .missing => return { s with files := s.files ++ [(place, ByteArray.empty)] }

end FileSystem

end SpriteStage
