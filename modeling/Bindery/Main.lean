import Bindery.Command.Program
import Bindery.Disk.Changes
import Bindery.Number.Calendar

/-!
# The outer layer

Reads the part of the real disk that the command line is about, runs the program on it, and writes
back what became of it.
-/

namespace Bindery.Machine

def pathOf (key : DiskKey) : String := "/" ++ Path.ofPieces key

/-- What stands under a key: nothing, or a directory or not. -/
def isDirectory? (key : DiskKey) : IO (Option Bool) := do
  let here ← IO.currentDir
  match ← (here / pathOf key).metadata.toBaseIO with
  | .error _ => return none
  | .ok found => return some (found.type matches .dir)

def isLink (key : DiskKey) : IO Bool := do
  let here ← IO.currentDir
  match ← (here / pathOf key).symlinkMetadata.toBaseIO with
  | .error _ => return false
  | .ok found => return found.type matches .symlink

def readContent (key : DiskKey) : IO FileContent := do
  return .ofBytes (← IO.FS.readBinFile (pathOf key)).toList

/-- Adds what stands under a key, with all that is in it. Links to directories are not followed. -/
partial def load (disk : Disk) (key : DiskKey) : IO Disk := do
  match ← isDirectory? key with
  | none => return disk
  | some false => return disk.put key (.file (← readContent key))
  | some true =>
    let disk := if key.isEmpty then disk else disk.put key .directory
    if ← isLink key then return disk
    let here ← IO.currentDir
    let entries ← (here / pathOf key).readDir
    entries.foldlM (fun disk entry => load disk (key ++ [entry.fileName])) disk

/-- Adds what stands under a path, and the directories above it. -/
def loadPlace (disk : Disk) (path : String) : IO Disk := do
  let key := (Disk.names path).foldl
    (fun key name =>
      if name = "." then key else if name = ".." then key.dropLast else key ++ [name])
    (disk.start path)
  let mut disk := disk
  for n in List.range key.length do
    let above := key.take n
    if n ≠ 0 && (← isDirectory? above) = some true then disk := disk.put above .directory
  load disk key

def environment : IO (List (String × String)) := do
  match ← (IO.FS.readFile "/proc/self/environ").toBaseIO with
  | .error _ => return []
  | .ok text =>
    return (text.splitOn "\x00").filterMap fun entry =>
      match entry.toList.span (· ≠ '=') with
      | (_, []) => none
      | (name, _ :: value) => some (String.ofList name, String.ofList value)

def processTag : IO String := do
  match ← (IO.FS.readFile "/proc/self/stat").toBaseIO with
  | .error _ => return "0"
  | .ok text => return String.ofList (text.toList.takeWhile Char.isDigit)

def clock : IO String :=
  IO.FS.withTempFile fun _ path => do
    let found ← path.metadata
    return Timestamp.text found.modified.sec.toNat

/-- Writes a file so that its old or its new content is there at any time. -/
def replaceFile (key : DiskKey) (content : FileContent) (tag : String) : IO Unit := do
  let target := pathOf key
  let temporary := target ++ FileStore.temporaryMark ++ tag
  match content with
  | .text s => IO.FS.writeFile temporary s
  | .binary bytes => IO.FS.writeBinFile temporary ⟨bytes.toArray⟩
  IO.FS.rename temporary target

def writeBack (before after : Disk) (tag : String) : IO Unit := do
  for (key, entry) in before.gained after do
    match entry with
    | .directory => IO.FS.createDirAll (pathOf key)
    | .file content => replaceFile key content tag
  for key in (before.lost after).reverse do
    if (← isDirectory? key) = some true then IO.FS.removeDir (pathOf key)
    else IO.FS.removeFile (pathOf key)

def surroundingDisk (env : List (String × String)) (arguments : List String) : IO Disk := do
  let home ← IO.currentDir
  let disk := Disk.enter .empty (Disk.names home.toString)
  match Invocation.parse arguments with
  | .error _ => return disk
  | .ok i =>
    let disk ← (Program.settingsPlaces disk.homePath i).foldlM loadPlace disk
    match i.loadSettings disk env with
    | .error _ => return disk
    | .ok settings => (Program.places settings i).foldlM loadPlace disk

def run (arguments : List String) : IO UInt32 := do
  let started ← IO.monoMsNow
  let tag ← processTag
  let env ← environment
  let disk ← surroundingDisk env arguments
  let elapsedMs := (← IO.monoMsNow) - started
  let ended := Program.run { processTag := tag, clock := ← clock, elapsedMs } disk env arguments
  writeBack disk ended.disk tag
  for note in ended.notes do
    IO.eprintln (note.level.label ++ " " ++ note.message)
  for line in ended.complaint do
    IO.eprintln line
  IO.print ended.printed
  return UInt32.ofNat ended.exitStatus

end Bindery.Machine

def main (arguments : List String) : IO UInt32 := Bindery.Machine.run arguments
