import Bindery.Settings.Loose

/-!
# Places in a tree of settings

A name at the top level of a source may spell the place of a value further inside: dots lead to
members of tables and subscripts to elements of lists. What is missing on the way is made, and
what is in the way is replaced.
-/

namespace Bindery

open LooseValue

/-- A step from a value into it. A negative subscript counts from the end of a list. -/
inductive PlaceStep where
  | member (name : String)
  | element (subscript : Int)
  deriving DecidableEq, Repr

namespace PlaceStep

/-! ## Reading -/

def isNameChar (c : Char) : Bool := c.isAlphanum || c = '_' || c = '-'

/-- Whether a character may stand beside a subscript. -/
def isPadding (c : Char) : Bool := c = ' ' || c = '\t'

def name? (cs : List Char) : Option (PlaceStep × List Char) :=
  match cs.takeWhile isNameChar with
  | [] => none
  | name => some (.member (String.ofList name), cs.dropWhile isNameChar)

/-- Reads the digits of a subscript, which has to fit a word, and the closing bracket. -/
def digits? (isNegative : Bool) (cs : List Char) : Option (PlaceStep × List Char) :=
  let digits := cs.takeWhile Char.isDigit
  let size : Int := Double.digitsValue digits
  let subscript := if isNegative then -size else size
  match (cs.dropWhile Char.isDigit).dropWhile isPadding with
  | ']' :: rest =>
    if digits.isEmpty || !fitsSigned 63 subscript then none else some (.element subscript, rest)
  | _ => none

/-- Reads a subscript behind its opening bracket. -/
def subscript? (cs : List Char) : Option (PlaceStep × List Char) :=
  match cs.dropWhile isPadding with
  | '-' :: rest => digits? true rest
  | rest => digits? false rest

/-- Reads the steps behind a name; the first argument bounds their number. -/
def steps? : Nat → List Char → Option (List PlaceStep)
  | _, [] => some []
  | bound + 1, '.' :: rest => do
    let (step, rest) ← name? rest
    return step :: (← steps? bound rest)
  | bound + 1, '[' :: rest => do
    let (step, rest) ← subscript? rest
    return step :: (← steps? bound rest)
  | _, _ => none

/-- The place that a name spells. A name that spells none is the name of a member. -/
def ofName (name : String) : List PlaceStep :=
  let spelled := do
    let (first, rest) ← name? name.toList
    return first :: (← steps? rest.length rest)
  spelled.getD [.member name]

/-! ## Storing -/

/-- Makes room for a subscript in a list and gives the index it stands for then. New elements are
null; they stand behind the list, or in front of it if a negative subscript leads there. -/
def room (subscript : Int) (items : List LooseValue) : List LooseValue × Nat :=
  match subscript with
  | .ofNat n => (items ++ List.replicate (n + 1 - items.length) .null, n)
  | .negSucc n =>
    (List.replicate (n + 1 - items.length) .null ++ items, items.length - (n + 1))

/-- Lays a value over what stands at a place. -/
def assign (v : LooseValue) : List PlaceStep → LooseValue → LooseValue
  | [], below => cover v below
  | member name :: rest, below =>
    let l := below.members
    table (put l name (assign v rest ((get? l name).getD null)))
  | element subscript :: rest, below =>
    let (items, index) := room subscript below.items
    list (items.set index (assign v rest (items[index]?.getD null)))

/-- Lays the members of a table over a value, each at the place that its name spells. -/
def assignAll (l : List (String × LooseValue)) (below : LooseValue) : LooseValue :=
  l.foldl (fun below (name, v) => assign v (ofName name) below) below

end PlaceStep

end Bindery
