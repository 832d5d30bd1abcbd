/-! # Files

What a command can read.  The files are those of the working directory; of everything else only what
every system has is known.  A path is followed name by name, from the root if it begins with a slash
and from the working directory otherwise.
-/
namespace ClassScript.CommandLine

/-- A refusal by the operating system, with its number. -/
structure Refusal where
  text : String
  code : Nat
deriving DecidableEq

namespace Refusal

def message (r : Refusal) : String := r.text ++ " (os error " ++ toString r.code ++ ")"

def absent : Refusal := ⟨"No such file or directory", 2⟩

def notDirectory : Refusal := ⟨"Not a directory", 20⟩

def isDirectory : Refusal := ⟨"Is a directory", 21⟩

def tooLong : Refusal := ⟨"File name too long", 36⟩

end Refusal

/-- Why a file yields no bytes. -/
inductive FileFault where
  /-- It cannot be opened. -/
  | notOpened (cause : Refusal)
  /-- It was opened but cannot be read. -/
  | notRead (cause : Refusal)
deriving DecidableEq

/-- The bytes that each path leads to. -/
abbrev Files := String → Except FileFault (List UInt8)

inductive Entry where
  | file (bytes : List UInt8)
  | directory
deriving DecidableEq

/-- The names of a path: what stands before, between and after its slashes. -/
def pathNames : List Char → List (List Char)
  | [] => [[]]
  | '/' :: cs => [] :: pathNames cs
  | c :: cs =>
    match pathNames cs with
    | [] => [[c]]
    | name :: names => (c :: name) :: names

/-- The working directory: what lies in it, by the names that lead there. -/
structure Folder where
  entries : List (List (List Char) × Entry) := [([], .directory)]

namespace Folder

/-- Puts a file into a folder, in directories of its own if its path has slashes. -/
def insert (folder : Folder) (path : String) (bytes : List UInt8) : Folder :=
  let names := pathNames path.toList
  let directories := (List.range names.length).map fun n => (names.take n, Entry.directory)
  ⟨(names, .file bytes) :: directories ++ folder.entries⟩

/-- Where a path has led so far. -/
inductive Region where
  | working
  /-- Above the working directory; of what is there nothing but directories on the way is known. -/
  | outside
  | root
deriving DecidableEq

/-- What every system has. -/
def rootEntries : List (List (List Char) × Entry) :=
  [([], .directory), (["tmp".toList], .directory), (["dev".toList], .directory),
    (["dev".toList, "null".toList], .file [])]

/-- A directory or file: a region, and the names that lead there. -/
structure Place where
  region : Region
  names : List (List Char) := []

def entry? (folder : Folder) (p : Place) : Option Entry :=
  match p.region with
  | .working => folder.entries.lookup p.names
  | .outside => [([], Entry.directory)].lookup p.names
  | .root => rootEntries.lookup p.names

/-- The directory around a directory; the root is around itself. -/
def Place.parent (p : Place) : Place :=
  match p.region, p.names with
  | .working, [] => ⟨.outside, []⟩
  | region, names => ⟨region, names.dropLast⟩

/-- The greatest number of bytes in a name. -/
def nameLimit : Nat := 255

/-- The greatest number of bytes in a path. -/
def pathLimit : Nat := 4095

/-- Follows one more name of a path. -/
def follow (folder : Folder) (p : Place) (name : List Char) : Except Refusal Place :=
  if folder.entry? p = some .directory then
    if name = [] ∨ name = ['.'] then .ok p
    else if name = ['.', '.'] then .ok p.parent
    else if nameLimit < (String.ofList name).utf8ByteSize then .error .tooLong
    else
      let next : Place := ⟨p.region, p.names ++ [name]⟩
      if (folder.entry? next).isSome then .ok next else .error .absent
  else .error .notDirectory

/-- What a path leads to. -/
def find (folder : Folder) (path : String) : Except Refusal Entry := do
  if path.isEmpty then throw .absent
  if pathLimit < path.utf8ByteSize then throw .tooLong
  let region := if path.toList.head? = some '/' then .root else .working
  let place ← (pathNames path.toList).foldlM folder.follow ⟨region, []⟩
  return (folder.entry? place).getD .directory

/-- The files of a folder.  A directory can be opened but not read. -/
def files (folder : Folder) : Files := fun path =>
  match folder.find path with
  | .error cause => .error (.notOpened cause)
  | .ok .directory => .error (.notRead .isDirectory)
  | .ok (.file bytes) => .ok bytes

end Folder

end ClassScript.CommandLine
