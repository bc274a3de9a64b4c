import Bindery.Disk.Tree
import Bindery.Settings.Environment
import Bindery.Settings.Place
import Bindery.Text.Lossy
import Bindery.Toml.Reader
import Bindery.Yaml.Document

/-!
# Loading settings

Settings come from an optional file with the environment laid over it; what neither of them says
has a default. The format of the file follows its extension.
-/

namespace Bindery

/-- The format of a settings file. -/
inductive SettingsFormat where
  | toml
  | json
  | yaml
  deriving DecidableEq, Repr

mutual

def Json.toLoose : Json → LooseValue
  | .null => .null
  | .bool b => .bool b
  | .integer n => if fitsSigned 63 n then .integer n else .decimal (.ofInt n)
  | .decimal spelling => .decimal ((double? spelling.toList).getD .nan)
  | .string s => .text s
  | .array items => .list (Json.looseItems items)
  | .object members => .table (Json.looseMembers [] members)

def Json.looseItems : List Json → List LooseValue
  | [] => []
  | item :: rest => item.toLoose :: Json.looseItems rest

/-- The members of an object as loose values; of several with one name the last stays. -/
def Json.looseMembers (found : List (String × LooseValue)) :
    List (String × Json) → List (String × LooseValue)
  | [] => found
  | (name, v) :: rest => Json.looseMembers (LooseValue.put found name v.toLoose) rest

end

namespace SettingsFormat

def all : List SettingsFormat := [toml, json, yaml]

def extensions : SettingsFormat → List String
  | toml => ["toml"]
  | json => ["json"]
  | yaml => ["yaml", "yml"]

def ofPath? (path : String) : Option SettingsFormat :=
  (Path.extension? path).bind fun extension => all.find? fun f => f.extensions.contains extension

def read? : SettingsFormat → String → Option LooseValue
  | toml, s => Toml.parse? s
  | json, s => (Json.parse? s).map Json.toLoose
  | yaml, s => Yaml.parse? s

end SettingsFormat

namespace Settings

def isFile (disk : Disk) (path : String) : Bool :=
  match disk.lookup path with
  | .ok (_, .file _) => true
  | _ => false

/-- What ends a path for a moment, so that an extension of its own is not replaced. -/
def placeholder : String := ".placeholder"

/-- What a path may stand for if it leads to no file: the path with an extension behind it. -/
def extended (path : String) : List (String × SettingsFormat) :=
  let path := if (Path.extension? path).isSome then path ++ placeholder else path
  SettingsFormat.all.flatMap fun format =>
    format.extensions.map fun extension => (Path.withExtension path extension, format)

/-- The paths that a settings file of some name may have, seen from the root. -/
def candidates (home path : String) : List String :=
  let path := Path.join home path
  path :: (extended path).map (·.1)

def resolve? (disk : Disk) (path : String) : Option (String × SettingsFormat) :=
  let path := Path.join disk.homePath path
  if isFile disk path then (SettingsFormat.ofPath? path).map fun format => (path, format)
  else (extended path).find? fun candidate => isFile disk candidate.1

/-- The text of a settings file. Bytes that are no text do not matter, and neither does a mark of
the byte order at the beginning. -/
def textOf (content : FileContent) : String :=
  let s := match content with
    | .text s => s
    | .binary bytes => Text.lossy bytes
  match s.toList with
  | '\ufeff' :: rest => String.ofList rest
  | _ => s

def readFile? (disk : Disk) (path : String) : Option (List (String × LooseValue)) := do
  let (path, format) ← resolve? disk path
  match disk.lookup path with
  | .ok (_, .file content) =>
    match format.read? (textOf content) with
    | some (.table members) => some members
    | _ => none
  | _ => none

def fault (context : String) : Fault := { cause := .settings "settings do not read", context }

/-- Loads settings from a file, if one is given, and from the environment. -/
def load (disk : Disk) (path : Option String) (environment : List (String × String)) :
    Except Fault Settings :=
  let file? := match path with
    | none => some []
    | some path => readFile? disk path
  match file? with
  | none => .error (fault "Failed to build config")
  | some file =>
    let merged := PlaceStep.assignAll (Environment.settings environment)
      (PlaceStep.assignAll file (.table []))
    match Settings.ofLoose? merged with
    | some settings => .ok settings
    | none => .error (fault "Failed to deserialize config")

end Settings

end Bindery
