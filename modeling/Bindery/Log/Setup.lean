import Bindery.Disk.Tree
import Bindery.Json.Value
import Bindery.Log.Filter
import Bindery.Settings.Basic

/-!
# Setting up logging

Logging has a filter and possibly a file. A set-up is refused if it has no name, if its filter does
not read, if the directory of the file cannot be made, or if the file cannot be opened, in this
order.
-/

namespace Bindery

/-- Why logging cannot be set up. -/
inductive LoggingFault where
  | blankName
  | badFilter (text : String)
  | noDirectory (path : String) (kind : IoKind)
  | noFile (kind : IoKind)
  deriving DecidableEq, Repr

/-- A logging that was set up. -/
structure Logging where
  name : String
  filter : Filter
  directory : Option String
  json : Bool
  deriving DecidableEq, Repr

namespace LoggingFault

def kind : LoggingFault → String
  | blankName => "InvalidConfiguration"
  | badFilter _ => "InvalidConfiguration"
  | noDirectory .. => "Io"
  | noFile _ => "Appender"

/-- Whether generated files would be spoilt. Logging never spoils them. -/
def isFatal (_ : LoggingFault) : Bool := false

def context? : LoggingFault → Option String
  | noDirectory path _ => some ("Failed to create path: " ++ path)
  | _ => none

def message : LoggingFault → String
  | blankName => "Invalid logging settings: Logger name cannot be empty"
  | badFilter text =>
    "Invalid logging settings: Invalid env filter '" ++ text ++ "': invalid filter directive"
  | noDirectory path kind =>
    "Cannot prepare log directory (Failed to create path: " ++ path ++ "): " ++ kind.name
  | noFile kind => "Cannot open log files: " ++ kind.name

end LoggingFault

namespace Logging

def isName (name : String) : Bool := !(Text.trimChars name.toList).isEmpty

/-- The filter that settings ask for; a level stands in where they say nothing. -/
def filterOf (level : Level) : Option String → Except LoggingFault Filter
  | none => .ok (Filter.ofLevel level)
  | some text =>
    match Filter.parse? text with
    | some filter => .ok (filter.orLevel level)
    | none => .error (.badFilter text)

/-- The path of the file of the day that a time belongs to. -/
def filePath (l : Logging) (directory clock : String) : String :=
  Path.join directory
    (l.name ++ "." ++ String.ofList (clock.toList.takeWhile (· ≠ 'T')) ++ ".log")

/-- Opens a log file. If that fails, the directory of the file is made first. -/
def openFile (disk : Disk) (path : String) : Except LoggingFault Unit × Disk :=
  match disk.openFile path with
  | .ok disk => (.ok (), disk)
  | .error _ =>
    match disk.makeDirectories ((Path.parent? path).getD "") with
    | (.error kind, disk) => (.error (.noFile kind), disk)
    | (.ok (), disk) =>
      match disk.openFile path with
      | .ok disk => (.ok (), disk)
      | .error kind => (.error (.noFile kind), disk)

/-- Makes the directory for log files, if there is one, and opens the file of the day. -/
def prepare (l : Logging) (disk : Disk) (clock : String) : Except LoggingFault Unit × Disk :=
  match l.directory with
  | none => (.ok (), disk)
  | some path =>
    match disk.makeDirectories path with
    | (.ok (), disk) => openFile disk (l.filePath path clock)
    | (.error kind, disk) => (.error (.noDirectory path kind), disk)

/-- Sets up logging at some time. Directories that were made before a refusal stay. -/
def setUp (disk : Disk) (clock name : String) (level : Level) (settings : LoggingSettings) :
    Except LoggingFault Logging × Disk :=
  if isName name then
    match filterOf level settings.envFilter with
    | .error fault => (.error fault, disk)
    | .ok filter =>
      let l : Logging :=
        { name, filter, directory := settings.directory, json := settings.json }
      let (prepared, disk) := l.prepare disk clock
      (prepared.map fun () => l, disk)
  else (.error .blankName, disk)

def shown (l : Logging) (notes : List Note) : List Note := notes.filter l.filter.admits

def line (l : Logging) (clock : String) (note : Note) : String :=
  if l.json then
    (Json.object [("timestamp", .string clock), ("level", .string note.level.label),
      ("fields", .object [(Directive.messageField, .string note.message)]),
      ("target", .string note.target)]).compact ++ "\n"
  else clock ++ " " ++ note.level.label ++ " " ++ note.target ++ ": " ++ note.message ++ "\n"

def write (l : Logging) (disk : Disk) (clock : String) (notes : List Note) : Disk :=
  match l.directory with
  | none => disk
  | some directory =>
    let path := l.filePath directory clock
    let earlier := (disk.readText path).toOption.getD ""
    let lines := String.join ((l.shown notes).map (l.line clock))
    match disk.writeFile path (.text (earlier ++ lines)) with
    | .ok disk => disk
    | .error _ => disk

end Logging

end Bindery
