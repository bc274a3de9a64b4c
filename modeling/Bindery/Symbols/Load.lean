import Bindery.Disk.Tree
import Bindery.Log.Note
import Bindery.Symbols.Snapshot

/-!
# Snapshots on disk

A snapshot is one file, or every JSON file below a directory in the order of a walk. No two files
may declare the same name.
-/

namespace Bindery.Snapshot

def fileExtension : String := "json"

/-- The fault of a directory below a path that cannot be read, because its own path is too long. -/
def unreadable (path directory : String) : Fault :=
  Cause.invalidSnapshot ("walking " ++ path ++ ": IO error for operation on " ++ directory ++
    ": File name too long (os error 36)")

/-- The file that an entry below a directory adds to those to read. -/
def found (path : String) : DiskKey × DiskEntry → Except Fault (List String)
  | (names, entry) =>
    let place := Path.join path (Path.ofPieces names)
    match entry with
    | .directory =>
      if (Disk.refusal? place).isSome then .error (unreadable path place) else .ok []
    | .file _ => .ok (if Path.extension? place = some fileExtension then [place] else [])

/-- The files to read for a path. A path that leads to no directory stands for itself. -/
def files (disk : Disk) (path : String) : Except Fault (List String) :=
  match disk.lookup path with
  | .ok (key, .directory) => ((disk.below key).mapM (found path)).map List.flatten
  | _ => .ok [path]

def readFile (disk : Disk) (file : String) : Except Fault (List Declaration) :=
  match disk.readText file with
  | .error kind => .error (.ofIo kind ("Reading snapshot " ++ file))
  | .ok text => parse ("Parsing snapshot " ++ file) text

/-- Adds the declarations of one file after the other to a table. -/
def loadFiles (disk : Disk) (t : SymbolTable) : List String → Except Fault SymbolTable
  | [] => .ok t
  | file :: rest =>
    (readFile disk file).bind fun declarations =>
      (t.insertAll declarations).bind fun t => loadFiles disk t rest

def loadPath (disk : Disk) (path : String) : Except Fault SymbolTable :=
  (files disk path).bind (loadFiles disk .empty)

def loadedNote : Note where
  level := .debug
  target := "sealant_kernel::symbols"
  message := "Symbol snapshot loaded"
  fields := ["path", "declarations"]

end Bindery.Snapshot
