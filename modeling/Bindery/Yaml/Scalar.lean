import Bindery.Json.Reader
import Bindery.Settings.Loose
import Bindery.Toml.Scalar

/-!
# Words of YAML

What a scalar without quotes stands for. A tag of the core family asks for one kind of value; any
other tag makes a text of a scalar.
-/

namespace Bindery.Yaml

/-- A tag, with the handle replaced by what it stands for. -/
structure Tag where
  stem : String
  suffix : String
  deriving DecidableEq, Repr

def coreStem : String := "tag:yaml.org,2002:"

/-- What a scalar stands for. -/
inductive Word where
  | null
  | bool (value : Bool)
  | integer (value : Int)
  /-- A number that is no integer, as it is written. -/
  | real (text : String)
  | text (value : String)
  /-- Not what its tag asks for. -/
  | unfit
  deriving DecidableEq, Repr

/-- The integer of a run of digits of a base, with an optional sign, if it fits 64 bits. -/
def based? (base : Nat) (cs : List Char) : Option Int :=
  let (isNegative, digits) := Double.takeSign cs
  if digits.isEmpty || !digits.all (Toml.isDigitOf base) then none
  else
    let size : Nat := digits.foldl (fun n c => base * n + Toml.digitValue c) 0
    let n : Int := if isNegative then -size else size
    if fitsSigned 63 n then some n else none

/-- An integer in one of three bases. A plus sign may stand in front of any other one. -/
def integer? (cs : List Char) : Option Int :=
  let short := match cs with
    | '0' :: 'x' :: rest => based? 16 rest
    | '0' :: 'o' :: rest => based? 8 rest
    | '+' :: rest => based? 10 rest
    | _ => none
  short.or (based? 10 cs)

/-- The words for numbers that are not finite. -/
def boundlessWords : List String :=
  [".inf", ".Inf", ".INF", "+.inf", "+.Inf", "+.INF", "-.inf", "-.Inf", "-.INF", ".nan", ".NaN",
    ".NAN"]

def isReal (s : String) : Bool :=
  boundlessWords.contains s ||
    (s.toList.any Char.isDigit && (Double.parse? s.toList).isSome)

namespace Word

/-- What a word without a tag stands for. -/
def ofPlain (s : String) : Word :=
  if ["", "~", "null"].contains s then null
  else if ["true", "True", "TRUE"].contains s then bool true
  else if ["false", "False", "FALSE"].contains s then bool false
  else
    match integer? s.toList with
    | some n => integer n
    | none => if isReal s then real s else text s

/-- What a word with a tag of the core family stands for. -/
def ofCore (kind s : String) : Word :=
  match kind with
  | "bool" => if s = "true" then bool true else if s = "false" then bool false else unfit
  | "int" => ((based? 10 s.toList).map integer).getD unfit
  | "float" => if isReal s then real s else unfit
  | "null" => if s = "~" || s = "null" then null else unfit
  | _ => text s

def ofScalar (isPlain : Bool) (tag : Option Tag) (s : String) : Word :=
  if !isPlain then text s
  else
    match tag with
    | none => ofPlain s
    | some tag => if tag.stem = coreStem then ofCore tag.suffix s else text s

def memberName? : Word → Option String
  | text s => some s
  | integer n => some (toString n)
  | bool b => some (if b then "true" else "false")
  | real s => some s
  | _ => none

/-- The loose value of a word. Words for numbers that are not finite have none. -/
def toLoose? : Word → Option LooseValue
  | null => some .null
  | bool b => some (.bool b)
  | integer n => some (.integer n)
  | real s => (Double.parse? s.toList).map .decimal
  | text s => some (.text s)
  | unfit => some .null

end Word

end Bindery.Yaml
