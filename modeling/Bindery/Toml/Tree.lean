import Bindery.Settings.Loose

/-!
# TOML trees

A document defines tables in three ways: by a header, by a dotted name, and on the way of a longer
header. No table is defined twice, and a dotted name does not add to a table that has a header; a
table that was only on the way of one becomes a table of dotted names.
-/

namespace Bindery.Toml

/-- How a table came to be. -/
inductive Origin where
  | header
  | dotted
  /-- On the way of the header of another table. -/
  | passed
  deriving DecidableEq, Repr

/-- What stands under a name of a document. -/
inductive Node where
  | value (v : LooseValue)
  | table (origin : Origin) (members : List (String × Node))
  /-- The tables of one repeated header; the last one is open. -/
  | tables (elements : List (List (String × Node)))

instance : Inhabited Node := ⟨.value .null⟩

abbrev Members := List (String × Node)

namespace Members

def get? (l : Members) (name : String) : Option Node := (l.find? fun m => m.1 = name).map (·.2)

def put (l : Members) (name : String) (n : Node) : Members :=
  l.filter (fun m => m.1 ≠ name) ++ [(name, n)]

/-- Changes the table that a header leads to. Tables that are missing on the way are made. -/
def update (f : Members → Option Members) : List String → Members → Option Members
  | [], l => f l
  | name :: rest, l =>
    match l.get? name with
    | none => (update f rest []).map fun inner => l.put name (.table .passed inner)
    | some (.table origin inner) =>
      (update f rest inner).map fun inner => l.put name (.table origin inner)
    | some (.tables elements) =>
      (update f rest (elements.getLast?.getD [])).map fun inner =>
        l.put name (.tables (elements.dropLast ++ [inner]))
    | some (.value _) => none

def openTable (name : String) (l : Members) : Option Members :=
  match l.get? name with
  | none => some (l.put name (.table .header []))
  | some (.table .passed inner) => some (l.put name (.table .header inner))
  | some _ => none

def openElement (name : String) (l : Members) : Option Members :=
  match l.get? name with
  | none => some (l.put name (.tables [[]]))
  | some (.tables elements) => some (l.put name (.tables (elements ++ [[]])))
  | some _ => none

/-- Defines a dotted name. The tables on its way become tables of dotted names; they have no header
of their own. -/
def define (v : LooseValue) : List String → Members → Option Members
  | [], _ => none
  | [name], l => if (l.get? name).isSome then none else some (l.put name (.value v))
  | name :: rest, l =>
    match l.get? name with
    | none => (define v rest []).map fun inner => l.put name (.table .dotted inner)
    | some (.table .header _) => none
    | some (.table _ inner) =>
      (define v rest inner).map fun inner => l.put name (.table .dotted inner)
    | some (.tables elements) =>
      if rest.length = 1 then none
      else
        (define v rest (elements.getLast?.getD [])).map fun inner =>
          l.put name (.tables (elements.dropLast ++ [inner]))
    | some (.value _) => none

end Members

mutual

/-- The value that a document gives to a name. -/
def Node.toLoose : Node → LooseValue
  | .value v => v
  | .table _ l => .table (looseMembers l)
  | .tables elements => .list (looseElements elements)

def looseMembers : List (String × Node) → List (String × LooseValue)
  | [] => []
  | (name, n) :: rest => (name, n.toLoose) :: looseMembers rest

def looseElements : List (List (String × Node)) → List LooseValue
  | [] => []
  | l :: rest => .table (looseMembers l) :: looseElements rest

end

end Bindery.Toml
