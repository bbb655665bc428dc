import Supergraph.Error
import Supergraph.Path

/-!
# Files

A tree of directories and files with a working directory in it. A file is a handle to its content,
and keeps it when it gets another name: whoever holds the handle goes on writing to the same file.

Every name of a path but the last has to lead to a directory. A name below a file is an error of its
own, so that it is told apart from a missing name. The directory above the root is the root.
-/

namespace Supergraph

/-- A place in the tree, by the names on the way from the root. -/
abbrev Place := List String

/-- The file that a place holds, by its number. -/
abbrev Handle := Nat

/-- What a place holds. -/
inductive Entry where
  | directory
  | file (handle : Handle)
deriving DecidableEq, Repr, Inhabited

/-- The working directory, the places below the root that hold something, and the contents of the
files. -/
structure Files where
  home : Place
  entries : List (Place × Entry)
  contents : List ByteArray
deriving Inhabited

/-- A computation on files. After a failure the files are as it left them. -/
abbrev Files.Action (α : Type) : Type := ExceptT FileError (StateM Files) α

namespace Files

/-- The tree that holds nothing but the working directory. -/
def ofHome (home : Place) : Files :=
  ⟨home, (List.range home.length).map fun n => (home.take (n + 1), .directory), []⟩

/-- What a place holds. The root is always there. -/
def entry? (files : Files) (place : Place) : Option Entry :=
  if place = [] then some .directory else files.entries.lookup place

/-- Takes an entry away. -/
def erase (place : Place) (files : Files) : Files :=
  { files with entries := files.entries.filter (·.1 ≠ place) }

/-- Puts an entry at a place, instead of the one it holds. -/
def put (place : Place) (entry : Entry) (files : Files) : Files :=
  { files with entries := (place, entry) :: (files.erase place).entries }

def content (files : Files) (handle : Handle) : ByteArray :=
  files.contents.getD handle ByteArray.empty

/-- Takes the content of a file away. -/
def truncate (handle : Handle) (files : Files) : Files :=
  { files with contents := files.contents.set handle ByteArray.empty }

/-- Writes over the beginning of a file. What lies behind stays. -/
def fill (handle : Handle) (bytes : ByteArray) (files : Files) : Files :=
  let old := files.content handle
  { files with contents := files.contents.set handle (bytes ++ old.extract bytes.size old.size) }

/-- The names in a directory, in alphabetical order. -/
def names (files : Files) (place : Place) : List String :=
  (files.entries.filterMap fun (path, _) =>
    if path.dropLast = place ∧ path ≠ [] then path.getLast? else none).mergeSort (· ≤ ·)

/-! ## Places of paths -/

/-- The place that names lead to, seen from `place`. The last name need not exist. -/
def walk (files : Files) : Place → List String → Except FileError Place
  | place, [] => .ok place
  | place, name :: rest =>
    match files.entry? place with
    | none => .error .notFound
    | some (.file _) => .error .notDirectory
    | some .directory =>
      if name = "." then walk files place rest
      else if name = ".." then walk files place.dropLast rest
      else walk files (place ++ [name]) rest

/-- The place that names of a path lead to. The empty path leads nowhere. -/
def locate (files : Files) (path : Path) (names : List String) : Except FileError Place :=
  if path.isEmpty then .error .notFound
  else files.walk (if path.absolute then [] else files.home) names

/-- What a path leads to. -/
def find (files : Files) (path : Path) : Except FileError (Place × Entry) := do
  let place ← files.locate path path.names
  match files.entry? place with
  | none => throw .notFound
  | some .directory => return (place, .directory)
  -- A slash behind the name of a file asks for a directory.
  | some (.file handle) => if path.closed then throw .notDirectory else return (place, .file handle)

/-- The place where a path would make a new entry. There is none for a path that leads to a
directory in any case, by a last name such as `..` or without a name. -/
def target? (files : Files) (path : Path) : Except FileError (Option Place) := do
  let parent ← files.locate path path.names.dropLast
  match files.entry? parent with
  | none => throw .notFound
  | some (.file _) => throw .notDirectory
  | some .directory =>
    return (path.names.getLast?.filter Path.isProper).map fun name => parent ++ [name]

/-! ## Reading -/

/-- The content of a file. -/
def read (path : String) : Action ByteArray := do
  let files ← get
  match ← (files.find (.ofString path) : Except FileError _) with
  | (_, .directory) => throw .isDirectory
  | (_, .file handle) => return files.content handle

def readText (path : String) : Action String := do
  match String.fromUTF8? (← read path) with
  | some text => return text
  | none => throw .invalidText

/-- Whether a path leads to something. -/
def holds (files : Files) (path : String) : Bool := (files.find (.ofString path)).isOk

/-- Whether a path leads to a directory. -/
def isDirectory (files : Files) (path : Path) : Bool :=
  match files.find path with
  | .ok (_, .directory) => true
  | _ => false

/-- The names in the directory at a path, in alphabetical order. There are none without it. -/
def list (files : Files) (path : String) : List String :=
  match files.find (.ofString path) with
  | .ok (place, .directory) => files.names place
  | _ => []

/-! ## Writing -/

/-- The empty file at a path, which is new or loses its content. -/
def create (path : String) : Action Handle := do
  let path := Path.ofString path
  let files ← get
  match ← (files.target? path : Except FileError _) with
  | none => throw .isDirectory
  | some place =>
    -- A slash behind the name fails also where nothing is there.
    if path.closed then throw .isDirectory
    match files.entry? place with
    | some .directory => throw .isDirectory
    | some (.file handle) =>
      set (files.truncate handle)
      return handle
    | none =>
      let handle := files.contents.length
      set { (files.put place (.file handle)) with contents := files.contents ++ [ByteArray.empty] }
      return handle

def write (path : String) (bytes : ByteArray) : Action Unit := do
  let handle ← create path
  modify (fill handle bytes)

/-- Gives what is at one path the other path as its only name. A file there is given up. -/
def rename (source target : String) : Action Unit := do
  let files ← get
  let (origin, entry) ← (files.find (.ofString source) : Except FileError _)
  match ← (files.target? (.ofString target) : Except FileError _) with
  | none => throw .isDirectory
  | some place =>
    if files.entry? place = some .directory then throw .isDirectory
    -- Taken away first, so that an entry keeps a name it is given again.
    set ((files.erase origin).put place entry)

/-- Makes a directory, which must be missing. -/
def makeDirectory (path : Path) : Action Unit := do
  let files ← get
  match ← (files.target? path : Except FileError _) with
  | none => throw .exists
  | some place =>
    if (files.entry? place).isSome then throw .exists
    set (files.put place .directory)

/-- Makes a directory unless it is there. -/
def ensureDirectory (path : Path) : Action Unit :=
  tryCatch (makeDirectory path) fun error => do
    if ! (← get).isDirectory path then throw error

/-- Makes the directory that names lead to, given the last one first, unless it is there. Those on
the way are made only if one of them is missing. -/
def makeDirectoriesTo (absolute : Bool) : List String → Action Unit
  | [] => pure ()
  | name :: above => do
    let path : Path := ⟨absolute, (name :: above).reverse, false⟩
    tryCatch (ensureDirectory path) fun error => do
      if error ≠ .notFound then throw error
      makeDirectoriesTo absolute above
      ensureDirectory path

/-- Makes the directories of a path where they are missing. -/
def makeDirectories (path : String) : Action Unit :=
  let path := Path.ofString path
  makeDirectoriesTo path.absolute path.steps.reverse

/-- Writes a file, and makes the directories on the way to it where they are missing. -/
def writeDeep (path : String) (bytes : ByteArray) : Action Unit := do
  let way := Path.ofString path
  makeDirectoriesTo way.absolute way.steps.dropLast.reverse
  write path bytes

end Files

end Supergraph
