import Preload.Path
/-!
# File stores

A file store in memory. It keeps every successful write, newest first, the directories that were
made, and the roots of subtrees that nothing may change. All look-ups go by components, so the
spelling of a path does not matter.
-/

namespace Preload

/-- Where a file or directory is. -/
abbrev Place : Type :=
  List Path.Component

/-- Why a store refuses to change. -/
inductive StoreError where
  /-- The path is at or below a read-only root. -/
  | readOnly (path : Path)
  /-- The directory that should hold the file does not exist. -/
  | missing (path : Path)
  deriving DecidableEq, Repr

namespace StoreError

/-- The text shown to a user. -/
def message : StoreError → String
  | readOnly path => path.text ++ " is read-only"
  | missing path => path.text ++ " does not exist"

end StoreError

/-- A successful write. -/
structure Write where
  place : Place
  contents : String
  deriving DecidableEq, Repr

/-- A file store. -/
structure FileStore where
  /-- All writes, newest first. -/
  writes : List Write
  /-- The directories that exist. -/
  directories : List Place
  /-- The roots of the read-only subtrees. -/
  readOnlyRoots : List Place
  deriving DecidableEq, Repr

namespace FileStore

/-- A store with nothing in it. -/
def empty : FileStore :=
  ⟨[], [], []⟩

instance : Inhabited FileStore := ⟨empty⟩

/-- Makes a path and all below it read-only. -/
def setReadOnly (path : Path) (s : FileStore) : FileStore :=
  { s with readOnlyRoots := path.components :: s.readOnlyRoots }

/-- The contents of a file: those of its newest write. -/
def read? (s : FileStore) (path : Path) : Option String :=
  (s.writes.find? (·.place = path.components)).map (·.contents)

/-- Whether a file or directory exists. -/
def contains (s : FileStore) (path : Path) : Bool :=
  (s.read? path).isSome || path.components ∈ s.directories

/-- The number of writes of a file. -/
def writeCount (s : FileStore) (path : Path) : Nat :=
  s.writes.countP (·.place = path.components)

/-- The number of all writes. -/
def totalWrites (s : FileStore) : Nat :=
  s.writes.length

/-- Whether a path is at or below a read-only root. -/
def isReadOnly (s : FileStore) (path : Path) : Bool :=
  s.readOnlyRoots.any (·.isPrefixOf path.components)

/-- The place itself and all places above it, without the empty one. -/
def ancestors : Place → List Place
  | [] => []
  | c :: cs => [c] :: (ancestors cs).map (c :: ·)

/-- The outcome of an operation, and the store after it. -/
abbrev Result : Type :=
  Except StoreError Unit × FileStore

/-- Makes a directory and those above it. -/
def createDirectories (path : Path) (s : FileStore) : Result :=
  if s.isReadOnly path then (.error (.readOnly path), s)
  else (.ok (), { s with directories := ancestors path.components ++ s.directories })

/-- The directory that should hold a file, unless that needs no check. -/
def holder? (path : Path) : Option Path :=
  path.parent?.filter (!·.isEmpty)

/-- Writes a file into a directory that exists. -/
def write (path : Path) (contents : String) (s : FileStore) : Result :=
  if s.isReadOnly path then (.error (.readOnly path), s)
  else
    match (holder? path).filter (·.components ∉ s.directories) with
    | some directory => (.error (.missing directory), s)
    | none => (.ok (), { s with writes := ⟨path.components, contents⟩ :: s.writes })

/-- Makes the directory of a file and writes the file. Directories that were made stay when the
write is refused. -/
def writeWithParents (path : Path) (contents : String) (s : FileStore) : Result :=
  match holder? path with
  | none => s.write path contents
  | some directory =>
    match s.createDirectories directory with
    | (.ok (), s) => s.write path contents
    | refused => refused

end FileStore

end Preload
