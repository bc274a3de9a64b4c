import Bindery.Yaml.Scalar

/-!
# YAML nodes

The tree of a document, with its aliases replaced by what they name.
-/

namespace Bindery.Yaml

/-- A node of a document. A mapping keeps its keys and values in one row, as they are written. -/
inductive Node where
  | word (value : Word)
  | sequence (items : List Node)
  | mapping (row : List Node)

namespace Node

instance : Inhabited Node := ⟨word .null⟩

def null : Node := word .null

/-- A node that may be taken for its own content has none yet. -/
def unfinished : Node := word .unfit

/-- Whether a node is not what it should be. Such a node is no key, and the next one is taken for
the key instead. -/
def isUnfit : Node → Bool
  | word .unfit => true
  | _ => false

def key? : Node → Option Word
  | word w => some w
  | _ => none

mutual

/-- The loose value of a node. There is none if a mapping has a key twice, or one that is no
name. -/
def toLoose? : Node → Option LooseValue
  | word w => w.toLoose?
  | sequence items => (looseItems? items).map .list
  | mapping row => (looseMembers? [] row).map fun members =>
      .table (members.foldl (fun l (name, v) => LooseValue.put l name v) [])

def looseItems? : List Node → Option (List LooseValue)
  | [] => some []
  | item :: rest =>
    match item.toLoose?, looseItems? rest with
    | some v, some vs => some (v :: vs)
    | _, _ => none

/-- The members of a mapping, behind the keys that were seen. A key without a value does not
count. -/
def looseMembers? (seen : List Word) : List Node → Option (List (String × LooseValue))
  | [] => some []
  | [_] => some []
  | k :: v :: rest =>
    if k.isUnfit then looseMembers? seen (v :: rest)
    else
      match k.key? with
      | none => none
      | some w =>
        if seen.contains w then none
        else
          match w.memberName?, v.toLoose?, looseMembers? (w :: seen) rest with
          | some name, some value, some members => some ((name, value) :: members)
          | _, _, _ => none

end

end Node

end Bindery.Yaml
