import Bindery.Json.Decode
import Bindery.Text.Blank

/-!
# Features

The platform features that a scope may enable, and sets of them. Each feature has a flag in the
configuration annotation of a scope, known by its key and by its position.
-/

namespace Bindery

/-- A platform feature that a scope may enable. -/
inductive Feature where
  | appcomponent
  | viewModel
  | fragment
  | work
  deriving DecidableEq, Repr

namespace Feature

def all : List Feature := [appcomponent, viewModel, fragment, work]

theorem mem_all (f : Feature) : f ∈ all := by cases f <;> decide

def name : Feature → String
  | appcomponent => "appcomponent"
  | viewModel => "viewmodel"
  | fragment => "fragment"
  | work => "work"

/-- The name of the flag in the configuration annotation. -/
def configKey : Feature → String
  | appcomponent => "addAppcomponentSupport"
  | viewModel => "addViewModelSupport"
  | fragment => "addFragmentSupport"
  | work => "addWorkSupport"

def index : Feature → Nat
  | appcomponent => 0
  | viewModel => 1
  | fragment => 2
  | work => 3

def flagName : Feature → String
  | appcomponent => "APPCOMPONENT"
  | viewModel => "VIEW_MODEL"
  | fragment => "FRAGMENT"
  | work => "WORK"

def ofConfigKey? (key : String) : Option Feature := all.find? fun f => f.configKey = key

/-- Reads a name; the case of ASCII letters does not matter. -/
def parse? (text : String) : Option Feature := all.find? fun f => f.name = text.toLower

/-- Names in JSON are spelled exactly. -/
def decoder : Json.Decoder Feature := .variant (all.map fun f => (f.name, f))

end Feature

/-- A set of features. -/
structure FeatureSet where
  appcomponent : Bool := false
  viewModel : Bool := false
  fragment : Bool := false
  work : Bool := false
  deriving DecidableEq, Repr

namespace FeatureSet

def none : FeatureSet := {}

def all : FeatureSet := ⟨true, true, true, true⟩

def has (s : FeatureSet) : Feature → Bool
  | .appcomponent => s.appcomponent
  | .viewModel => s.viewModel
  | .fragment => s.fragment
  | .work => s.work

def insert (s : FeatureSet) : Feature → FeatureSet
  | .appcomponent => { s with appcomponent := true }
  | .viewModel => { s with viewModel := true }
  | .fragment => { s with fragment := true }
  | .work => { s with work := true }

def union (s t : FeatureSet) : FeatureSet :=
  ⟨s.appcomponent || t.appcomponent, s.viewModel || t.viewModel, s.fragment || t.fragment,
    s.work || t.work⟩

def toList (s : FeatureSet) : List Feature := Feature.all.filter s.has

def ofList (l : List Feature) : FeatureSet := l.foldl insert none

theorem has_insert (s : FeatureSet) (f g : Feature) :
    (s.insert f).has g = (s.has g || decide (f = g)) := by
  cases f <;> cases g <;> simp [insert, has]

theorem mem_toList (s : FeatureSet) (f : Feature) : f ∈ s.toList ↔ s.has f = true := by
  simp [toList, Feature.mem_all]

/-- One bit for each feature, the first feature in the lowest. -/
def bits (s : FeatureSet) : Nat := s.toList.foldr (fun f n => powTwo f.index + n) 0

/-- The features whose bits are set; bits beyond them do not count. -/
def ofBits (n : Nat) : FeatureSet := ofList (Feature.all.filter fun f => n.testBit f.index)

/-- Reads a name: one feature, all or none of them. -/
def parse (text : String) : Except DomainFault FeatureSet :=
  match Text.trim text with
  | "all" => .ok all
  | "*" => .ok all
  | "none" => .ok none
  | word =>
    match Feature.parse? word with
    | some f => .ok (none.insert f)
    | .none => .error (.unknownFeature word)

def parseAll : List String → Except DomainFault FeatureSet
  | [] => .ok none
  | text :: rest => (parse text).bind fun s => (parseAll rest).map s.union

/-- The forms a set may take in a document: its bits, a list of names, or one name. -/
inductive Form where
  | bits (n : Nat)
  | names (l : List String)
  | single (name : String)

def Form.resolve : Form → Except DomainFault FeatureSet
  | bits n => .ok (ofBits n)
  | names l => parseAll l
  | single name => parse name

def Form.recognise? : Json.Draft → Option Form
  | .number spelling =>
    match Json.Draft.integer? spelling with
    | some (.ofNat n) => if fitsWord 32 n then some (bits n) else .none
    | _ => .none
  | .array items => (items.mapM (Json.Decoder.string 0)).toOption.map names
  | .text s => s.map single
  | _ => .none

def decoder : Json.Decoder FeatureSet :=
  .refine (.whole "FeatureSetRepr" Form.recognise?) Form.resolve

def toJson (s : FeatureSet) : Json := .ofList (fun f : Feature => .string f.name) s.toList

def describe (s : FeatureSet) : String :=
  match s.toList with
  | [] => "FeatureSet(0x0)"
  | l => "FeatureSet(" ++ " | ".intercalate (l.map Feature.flagName) ++ ")"

end FeatureSet

end Bindery
