import Bindery.Log.Note
import Bindery.Number.Double
import Bindery.Text.Pattern.Reader

/-!
# Tests of values

A filter may ask stretches of a run for values: that one is known at all, or that it is a certain
one. What is written for a value is a truth value or a number if it reads as one, and else a
pattern.
-/

namespace Bindery

/-- What a value has to be. -/
inductive FieldValue where
  | bool (value : Bool)
  | count (value : Nat)
  | integer (value : Int)
  | decimal (value : Double)
  | pattern (text : String)
  deriving DecidableEq, Repr

namespace FieldValue

def digits? (cs : List Char) : Option (List Char) :=
  let digits := match cs with
    | '+' :: rest => rest
    | _ => cs
  if digits.isEmpty || !digits.all Char.isDigit then none else some digits

def count? (s : String) : Option Nat :=
  (digits? s.toList).bind fun digits =>
    let n := Double.digitsValue digits
    if fitsWord 64 n then some n else none

def negative? (s : String) : Option Int :=
  match s.toList with
  | '-' :: rest =>
    if rest.isEmpty || !rest.all Char.isDigit then none
    else
      let n : Int := -(Double.digitsValue rest)
      if fitsSigned 63 n then some n else none
  | _ => none

/-- A number that is no integer, with the words for those that are not finite in any case. Zero has
no sign. -/
def decimal? (s : String) : Option Double :=
  let (isNegative, rest) := Double.takeSign (s.toList.map Char.toLower)
  match String.ofList rest with
  | "nan" => some .nan
  | "inf" => some (.infinite isNegative)
  | "infinity" => some (.infinite isNegative)
  | _ => (Double.parse? s.toList).map fun x => if x.isZero then .finite false 0 else x

def parse? (s : String) : Option FieldValue :=
  match s with
  | "true" => some (.bool true)
  | "false" => some (.bool false)
  | _ =>
    match count? s, negative? s, decimal? s with
    | some n, _, _ => some (.count n)
    | _, some n, _ => some (.integer n)
    | _, _, some x => some (.decimal x)
    | _, _, _ => (Pattern.parse? s).map fun _ => .pattern s

/-- Whether a value is what it has to be. Counts are compared as numbers, texts end with a
pattern. -/
def admits (v : FieldValue) (known : StretchValue) : Bool :=
  match v, known with
  | count n, .count m => n = m
  | pattern text, .text s => (Pattern.parse? text).any fun p => p.accepts s
  | _, _ => false

end FieldValue

/-- A value that notes or stretches are asked for: its name, and what it has to be. -/
structure FieldTest where
  name : String
  value : Option FieldValue := none
  deriving DecidableEq, Repr

namespace FieldTest

/-- A test as it is written: the name, and behind an equals sign the value. What stands behind
another equals sign is not looked at. -/
def parse? (text : List Char) : Option FieldTest :=
  let (name, rest) := text.span (· ≠ '=')
  match rest with
  | [] => some { name := String.ofList name }
  | _ :: value =>
    (FieldValue.parse? (String.ofList (value.takeWhile (· ≠ '=')))).map fun value =>
      { name := String.ofList name, value := some value }

def admits (t : FieldTest) (fields : List (String × StretchValue)) : Bool :=
  fields.any fun (name, known) => name = t.name && t.value.all fun v => v.admits known

end FieldTest

end Bindery
