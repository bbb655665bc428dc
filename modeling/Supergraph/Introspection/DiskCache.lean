import Supergraph.Files
import Supergraph.Introspection.Cache

/-!
# Introspection caches on disk

Every entry is a file of its own in one directory. A writer goes through four steps: it makes the
directory, creates a draft, fills it, and gives it the name of the entry. The draft has one name per
fingerprint.
-/

namespace Supergraph

/-- A cache whose entries are files in a directory. -/
structure DiskCache where
  directory : String
deriving DecidableEq, Repr, Inhabited

namespace DiskCache

/-- The file of an entry. -/
def entryPath (cache : DiskCache) (fingerprint : Fingerprint) : String :=
  Path.join cache.directory (fingerprint.hex ++ ".json")

/-- The file that an entry is written to before it is complete. -/
def draftPath (cache : DiskCache) (fingerprint : Fingerprint) : String :=
  Path.join cache.directory ("." ++ fingerprint.hex ++ ".json.tmp")

/-- Reads an entry. A missing file is a missing entry. -/
def read (cache : DiskCache) (fingerprint : Fingerprint) : Files.Action (Option String) :=
  tryCatch (some <$> Files.readText (cache.entryPath fingerprint)) fun error =>
    if error = .notFound then return none else throw error

/-- What a writer does next. -/
inductive Writer where
  | makeDirectory
  | create
  | fill (draft : Handle)
  | rename
  | done
deriving DecidableEq, Repr, Inhabited

/-- The next step of a writer. -/
def Writer.step (cache : DiskCache) (fingerprint : Fingerprint) (text : String) :
    Writer → Files.Action Writer
  | .makeDirectory => do
    Files.makeDirectories cache.directory
    return .create
  -- A draft that is there loses its content, whoever is filling it.
  | .create => return .fill (← Files.create (cache.draftPath fingerprint))
  | .fill draft => do
    modify (Files.fill draft text.toByteArray)
    return .rename
  | .rename => do
    Files.rename (cache.draftPath fingerprint) (cache.entryPath fingerprint)
    return .done
  | .done => return .done

/-- The given number of steps of a writer. -/
def Writer.steps (cache : DiskCache) (fingerprint : Fingerprint) (text : String) :
    Nat → Writer → Files.Action Writer
  | 0, writer => return writer
  | n + 1, writer => do
    let next ← writer.step cache fingerprint text
    next.steps cache fingerprint text n

/-- Writes an entry without interruption. -/
def write (cache : DiskCache) (fingerprint : Fingerprint) (text : String) : Files.Action Unit := do
  let _ ← Writer.makeDirectory.steps cache fingerprint text 4

/-- A failure of the file system as an error of the introspection. -/
def raise {α : Type} (action : Files.Action α) : ExceptT Error (StateM Files) α :=
  action.adapt Error.file

/-- The cache in a directory below the working directory. -/
def access (cache : DiskCache) : Cache (StateM Files) where
  read fingerprint := raise (cache.read fingerprint)
  write fingerprint text := raise (cache.write fingerprint text)

end DiskCache

end Supergraph
