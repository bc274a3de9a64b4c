import Bindery.Disk.Path
import Bindery.Fault
import Bindery.OrderedMap

/-!
# File trees

A tree of files and directories, with the directory at hand in it. Entries are kept by the names
that lead to them from the root, so that the order of entries is that of a walk: a directory
before what is in it, and neighbours by name. Operations on paths fail for the same reasons as
those of a real disk.
-/

namespace Bindery

/-- The content of a file: a text, or bytes that are none. -/
inductive FileContent where
  | text (value : String)
  | binary (bytes : List UInt8)
  deriving DecidableEq

/-- The content that some bytes are: the text that they encode, if there is one. -/
def FileContent.ofBytes (bytes : List UInt8) : FileContent :=
  match String.fromUTF8? ⟨bytes.toArray⟩ with
  | some s => .text s
  | none => .binary bytes

/-- What stands under a name. -/
inductive DiskEntry where
  | directory
  | file (content : FileContent)
  deriving DecidableEq

/-- The names that lead to an entry from the root. -/
abbrev DiskKey := List String

/-- Files and directories, and the directory at hand. -/
structure Disk where
  entries : OrderedMap DiskKey DiskEntry
  home : DiskKey := []

namespace Disk

def empty : Disk := { entries := .empty }

instance : Inhabited Disk := ⟨empty⟩

/-- The entry under a key; the root has no names. -/
def entry? (disk : Disk) : DiskKey → Option DiskEntry
  | [] => some .directory
  | key => disk.entries.get? key

def put (disk : Disk) (key : DiskKey) (entry : DiskEntry) : Disk :=
  { disk with entries := disk.entries.insert key entry }

def remove (disk : Disk) (key : DiskKey) : Disk := { disk with entries := disk.entries.erase key }

/-- The disk with a directory at hand, which is made with all directories above it. -/
def enter (disk : Disk) (home : DiskKey) : Disk :=
  let disk := (List.range home.length).foldl (fun disk n => disk.put (home.take (n + 1)) .directory)
    disk
  { disk with home }

/-- The longest name of an entry, in bytes. -/
def maxNameLength : Nat := 255

def names (path : String) : List String := (Path.pieces path).filter fun p => !p.isEmpty

/-- The names to follow along a path. A slash at the end asks for a directory. -/
def route (path : String) : List String :=
  if path.endsWith "/" then names path ++ ["."] else names path

def step (disk : Disk) (key : DiskKey) (name : String) : Except IoKind DiskKey :=
  match disk.entry? key with
  | none => .error .notFound
  | some (.file _) => .error .notADirectory
  | some .directory =>
    if name = "." then .ok key
    else if name = ".." then .ok key.dropLast
    else if maxNameLength < name.utf8ByteSize then .error .invalidFilename
    else .ok (key ++ [name])

/-- Follows names from an entry. The last name need not lead to an entry. -/
def follow (disk : Disk) : DiskKey → List String → Except IoKind DiskKey
  | key, [] => .ok key
  | key, name :: rest => (disk.step key name).bind fun key => disk.follow key rest

def start (disk : Disk) (path : String) : DiskKey :=
  if Path.isAbsolute path then [] else disk.home

def homePath (disk : Disk) : String := "/" ++ Path.ofPieces disk.home

/-- The longest path that is followed, in bytes. -/
def maxPathLength : Nat := 4095

def refusal? (path : String) : Option IoKind :=
  if path.isEmpty then some .notFound
  else if path.contains '\x00' then some .invalidInput
  else if maxPathLength < path.utf8ByteSize then some .invalidFilename
  else none

/-- Follows names from where a path starts, unless the path is refused. -/
def followPath (disk : Disk) (path : String) (names : List String) : Except IoKind DiskKey :=
  match refusal? path with
  | some kind => .error kind
  | none => disk.follow (disk.start path) names

/-- The key that a path leads to, whether or not there is an entry. The directory of the key
exists. -/
def locate (disk : Disk) (path : String) : Except IoKind DiskKey :=
  disk.followPath path (route path)

def lookup (disk : Disk) (path : String) : Except IoKind (DiskKey × DiskEntry) :=
  (disk.locate path).bind fun key =>
    match disk.entry? key with
    | some entry => .ok (key, entry)
    | none => .error .notFound

def readText (disk : Disk) (path : String) : Except IoKind String :=
  (disk.lookup path).bind fun
    | (_, .directory) => .error .isADirectory
    | (_, .file (.text s)) => .ok s
    | (_, .file (.binary _)) => .error .invalidData

/-- The stretches of names that lead from one directory of a path to the next one. Dots at the end
belong to the last directory, which has to be there before they are followed. -/
def stretches : List String → List (List String)
  | [] => []
  | name :: rest => if rest.all (· = ".") then [name :: rest] else [name] :: stretches rest

/-- Follows stretches from a directory and makes the directories that are missing. A file in the
way is met as a name that is taken if it ends the path or if a directory was made before it, since
only then the path is followed no further than there. -/
def climb (disk : Disk) (hasMade : Bool) (key : DiskKey) :
    List (List String) → Except IoKind Unit × Disk
  | [] => (.ok (), disk)
  | stretch :: rest =>
    match disk.follow key stretch with
    | .error kind => (.error kind, disk)
    | .ok key =>
      match disk.entry? key with
      | none => (disk.put key .directory).climb true key rest
      | some .directory => disk.climb hasMade key rest
      | some (.file _) =>
        if hasMade || rest.isEmpty then (.error .alreadyExists, disk)
        else disk.climb hasMade key rest

/-- Makes a directory and those above it that are missing. What was made before a failure stays. -/
def makeDirectories (disk : Disk) (path : String) : Except IoKind Unit × Disk :=
  if path.isEmpty then (.ok (), disk)
  else
    match refusal? path with
    | some kind => (.error kind, disk)
    | none => disk.climb false (disk.start path) (stretches (names path))

def createFile (disk : Disk) (path : String) (content : FileContent) : Except IoKind Disk :=
  (disk.locate path).bind fun key =>
    match disk.entry? key with
    | some _ => .error .alreadyExists
    | none => .ok (disk.put key (.file content))

def openFile (disk : Disk) (path : String) : Except IoKind Disk :=
  (disk.locate path).bind fun key =>
    match disk.entry? key with
    | some .directory => .error .isADirectory
    | some (.file _) => .ok disk
    | none => .ok (disk.put key (.file (.text "")))

/-- Writes a file, over what it held before. A path that asks for a directory is refused as one. -/
def writeFile (disk : Disk) (path : String) (content : FileContent) : Except IoKind Disk :=
  if path.endsWith "/" then
    (disk.followPath path (names path)).bind fun _ => .error .isADirectory
  else
    (disk.locate path).bind fun key =>
      match disk.entry? key with
      | some .directory => .error .isADirectory
      | _ => .ok (disk.put key (.file content))

/-- Moves a file over another one, or to a free name. A directory is not replaced. -/
def rename (disk : Disk) (source target : String) : Except IoKind Disk :=
  (disk.lookup source).bind fun (sourceKey, entry) =>
    (disk.locate target).bind fun targetKey =>
      match disk.entry? targetKey with
      | some .directory => .error .isADirectory
      | _ => .ok ((disk.remove sourceKey).put targetKey entry)

/-- Removes the file that a path leads to, if there is one. -/
def discard (disk : Disk) (path : String) : Disk :=
  match disk.lookup path with
  | .ok (key, .file _) => disk.remove key
  | _ => disk

/-- The entries strictly below a key, in the order of a walk, with the names that lead to them
from there. -/
def below (disk : Disk) (key : DiskKey) : List (DiskKey × DiskEntry) :=
  disk.entries.entries.filterMap fun (k, entry) =>
    if key.isPrefixOf k && k ≠ key then some (k.drop key.length, entry) else none

end Disk

end Bindery
