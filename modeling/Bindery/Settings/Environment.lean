import Bindery.Settings.Loose

/-!
# Settings from the environment

A variable with the prefix of the program sets one value as a text. Two underscores or a dot divide
the names that lead to the value, and neither case nor the way of dividing words matters.
-/

namespace Bindery.Environment

/-- What the names of variables begin with, in lower case. -/
def start : String := "sealant__"

/-- Puts a dot for every pair of underscores, from left to right. -/
def dotted : List Char → List Char
  | '_' :: '_' :: rest => '.' :: dotted rest
  | c :: rest => c :: dotted rest
  | [] => []

def dividesWords (c : Char) : Bool := c = '_' || c = '-' || c = ' '

/-- The words of a name, joined by single underscores. -/
def snake (cs : List Char) : String :=
  "_".intercalate (((cs.splitOnP dividesWords).filter fun w => !w.isEmpty).map String.ofList)

/-- The words of every part of a dotted name, joined by single underscores. -/
def snakeParts (cs : List Char) : String := ".".intercalate ((cs.splitOn '.').map snake)

/-- The dotted name that a variable sets, if it has the prefix. -/
def name? (key : String) : Option String :=
  let lower := key.toLower
  if lower.startsWith start then some (snakeParts (dotted (lower.toList.drop start.length)))
  else none

def settings (environment : List (String × String)) : List (String × LooseValue) :=
  environment.filterMap fun (key, value) =>
    (name? key).map fun name => (name, .text value)

end Bindery.Environment
