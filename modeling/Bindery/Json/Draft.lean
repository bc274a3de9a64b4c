import Bindery.Json.Magnitude
import Bindery.Json.Value

/-!
# Drafts of JSON values

A draft is what stands in a text before anyone asked for its meaning. It keeps every member, also
one given twice, and marks the place where the text breaks off. Two parts of a draft may be
well-formed and still have no value: a text with half of a surrogate pair, and a number beyond
every finite magnitude. Whether that matters depends on who reads the draft: a field that nobody
asked for is only skipped.
-/

namespace Bindery.Json

/-- A text as far as it could be followed. Members are pairs of drafts, because what stands in
the place of a name need not be a text. -/
inductive Draft where
  | null
  | bool (value : Bool)
  | number (spelling : List Char)
  | text (value : Option String)
  | array (items : List Draft)
  | object (members : List (Draft × Draft))
  | malformed

instance : Inhabited Draft := ⟨.malformed⟩

def maxDepth : Nat := 127

namespace Draft

/-- Whether a number is within the finite magnitudes of 64-bit floating point. -/
def isFinite (spelling : List Char) : Bool := (double? spelling).isSome

/-- The integer that a number spells without point and exponent. Minus zero is none, and neither
is an integer that fits no 64-bit word. -/
def integer? (spelling : List Char) : Option Int :=
  match spelling with
  | '-' :: digits =>
    let n := Double.digitsValue digits
    if digits.all Char.isDigit && n != 0 && fitsSigned 63 (-(n : Int)) then some (-(n : Int))
    else none
  | digits =>
    let n := Double.digitsValue digits
    if digits.all Char.isDigit && fitsWord 64 n then some (n : Int) else none

mutual

/-- Whether the text is followed to the end of the draft. -/
def isComplete : Draft → Bool
  | array items => areComplete items
  | object members => areMembersComplete members
  | malformed => false
  | _ => true

def areComplete : List Draft → Bool
  | [] => true
  | item :: rest => isComplete item && areComplete rest

def areMembersComplete : List (Draft × Draft) → Bool
  | [] => true
  | (key, value) :: rest => isComplete key && isComplete value && areMembersComplete rest

end

mutual

/-- The value of a draft below a number of open brackets. There is none if the text breaks off,
if a part has no value, or if brackets nest too deep. -/
def value? (depth : Nat) : Draft → Option Json
  | null => some .null
  | bool b => some (.bool b)
  | number spelling =>
    match integer? spelling with
    | some n => some (.integer n)
    | none => if isFinite spelling then some (.decimal (String.ofList spelling)) else none
  | text s => s.map .string
  | array items =>
    if depth < maxDepth then (values? (depth + 1) items).map .array else none
  | object members =>
    if depth < maxDepth then (members? (depth + 1) members).map .object else none
  | malformed => none

def values? (depth : Nat) : List Draft → Option (List Json)
  | [] => some []
  | item :: rest =>
    match value? depth item, values? depth rest with
    | some v, some vs => some (v :: vs)
    | _, _ => none

def members? (depth : Nat) : List (Draft × Draft) → Option (List (String × Json))
  | [] => some []
  | (.text (some name), value) :: rest =>
    match value? depth value, members? depth rest with
    | some v, some vs => some ((name, v) :: vs)
    | _, _ => none
  | _ => none

end

end Draft

end Bindery.Json
