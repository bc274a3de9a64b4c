import Bindery.Json.Value
import Bindery.Number.Double
import Bindery.Settings.Basic

/-!
# Loosely typed settings

Settings come from files of several formats and from the environment, where everything is text. A
loose value is what such a source says; how it counts depends on the type that is asked for.
-/

namespace Bindery

/-- A value in a source of settings. -/
inductive LooseValue where
  | null
  | bool (value : Bool)
  | integer (value : Int)
  | decimal (value : Double)
  | text (value : String)
  | list (items : List LooseValue)
  | table (members : List (String × LooseValue))

namespace LooseValue

instance : Inhabited LooseValue := ⟨null⟩

/-! ## Parts -/

/-- The members of a table; other values have none. -/
def members : LooseValue → List (String × LooseValue)
  | table members => members
  | _ => []

/-- The elements of a list; other values have none. -/
def items : LooseValue → List LooseValue
  | list items => items
  | _ => []

def get? (l : List (String × LooseValue)) (name : String) : Option LooseValue :=
  (l.find? fun m => m.1 = name).map (·.2)

def put (l : List (String × LooseValue)) (name : String) (v : LooseValue) :
    List (String × LooseValue) :=
  l.filter (fun m => m.1 ≠ name) ++ [(name, v)]

mutual

/-- A value laid over another one. Tables are joined; any other value replaces what was there. -/
def cover : LooseValue → LooseValue → LooseValue
  | table upper, below => table (coverMembers upper below.members)
  | v, _ => v

/-- Members laid over other ones. -/
def coverMembers : List (String × LooseValue) → List (String × LooseValue) →
    List (String × LooseValue)
  | [], below => below
  | (name, v) :: rest, below =>
    coverMembers rest (put below name (cover v ((get? below name).getD null)))

end

/-! ## Types -/

def trueWords : List String := ["1", "true", "on", "yes"]

def falseWords : List String := ["0", "false", "off", "no"]

/-- A truth value: also a number, or a word in any case. -/
def asBool? : LooseValue → Option Bool
  | bool b => some b
  | integer n => some (n != 0)
  | decimal x => some !x.isZero
  | text s =>
    if trueWords.contains s.toLower then some true
    else if falseWords.contains s.toLower then some false
    else none
  | _ => none

/-- A text: also the text of a number or a truth value. -/
def asText? : LooseValue → Option String
  | text s => some s
  | bool b => some (if b then "true" else "false")
  | integer n => some (toString n)
  | decimal x => some x.text
  | _ => none

def asOptionalText? : LooseValue → Option (Option String)
  | null => some none
  | v => v.asText?.map some

def strictText? : LooseValue → Option String
  | text s => some s
  | _ => none

/-- A set of features. Here numbers are no names, and texts are no numbers. -/
def asFeatures? (v : LooseValue) : Option FeatureSet :=
  let form : Option FeatureSet.Form := match v with
    | integer (.ofNat n) => if fitsWord 32 n then some (.bits n) else none
    | list items => (items.mapM strictText?).map .names
    | text s => some (.single s)
    | _ => none
  form.bind fun form => form.resolve.toOption

/-- How to find a field of a record: by name in a table, by position in a list. -/
def fields? : LooseValue → Option (Nat → String → Option LooseValue)
  | table members => some fun _ name => get? members name
  | list items => some fun place _ => items[place]?
  | _ => none

def fieldOr {α : Type} (read : LooseValue → Option α) (default : α) :
    Option LooseValue → Option α
  | none => some default
  | some v => read v

end LooseValue

open LooseValue

def OutputSettings.ofLoose? (v : LooseValue) : Option OutputSettings := do
  let default : OutputSettings := {}
  let field ← v.fields?
  let dir ← fieldOr asText? default.dir (field 0 "dir")
  let cleanStale ← fieldOr asBool? default.cleanStale (field 1 "clean_stale")
  let manifest ← fieldOr asBool? default.manifest (field 2 "manifest")
  return { dir, cleanStale, manifest }

def HeaderSettings.ofLoose? (v : LooseValue) : Option HeaderSettings := do
  let default : HeaderSettings := {}
  let field ← v.fields?
  let title ← fieldOr asText? default.title (field 0 "title")
  let url ← fieldOr asText? default.url (field 1 "url")
  let optIn ← fieldOr asBool? default.optIn (field 2 "opt_in")
  return { title, url, optIn }

def LoggingSettings.ofLoose? (v : LooseValue) : Option LoggingSettings := do
  let field ← v.fields?
  let directory ← fieldOr asOptionalText? none (field 0 "directory")
  let json ← fieldOr asBool? false (field 1 "json")
  let envFilter ← fieldOr asOptionalText? none (field 2 "env_filter")
  return { directory, json, envFilter }

/-- Settings in a source. Names without a meaning do not matter. -/
def Settings.ofLoose? (v : LooseValue) : Option Settings := do
  let field ← v.fields?
  let features ← fieldOr asFeatures? .all (field 0 "features")
  let failFast ← fieldOr asBool? false (field 1 "fail_fast")
  let output ← fieldOr OutputSettings.ofLoose? {} (field 2 "output")
  let header ← fieldOr HeaderSettings.ofLoose? {} (field 3 "header")
  let logging ← fieldOr LoggingSettings.ofLoose? {} (field 4 "logging")
  return { features, failFast, output, header, logging }

end Bindery
