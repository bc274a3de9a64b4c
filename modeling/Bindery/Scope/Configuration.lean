import Bindery.Feature
import Bindery.Symbols.Table
import Bindery.WellKnown

/-!
# Scope configurations

A scope is configured by an annotation on its declaration, with one flag for each feature and
possibly the name of a parent scope.
-/

namespace Bindery

/-- What a scope declares about itself. -/
structure ScopeConfiguration where
  scope : ClassName
  parent : Option ClassName
  features : FeatureSet
  deriving DecidableEq

namespace ScopeConfiguration

def parentArgument : String := "parentScope"

/-- The position of the argument for the parent. -/
def parentIndex : Nat := 4

def readFlag (owner : Declaration) (a : Annotation) (f : Feature) : Except Fault Bool :=
  (readArgument owner a f.configKey (some f.index)).bind fun
    | none => .error (Cause.invalidConfiguration owner.name.canonical
        ("Couldn't find " ++ f.configKey ++ " for " ++ a.annotationClass.canonical ++ "."))
    | some (.bool b) => .ok b
    | some value => .error (Cause.invalidConfiguration owner.name.canonical
        (f.configKey ++ " of " ++ a.annotationClass.canonical ++
          " must be a boolean, got " ++ value.describe))

def readFlags (owner : Declaration) (a : Annotation) (s : FeatureSet) :
    List Feature → Except Fault FeatureSet
  | [] => .ok s
  | f :: rest =>
    (readFlag owner a f).bind fun enabled =>
      readFlags owner a (if enabled then s.insert f else s) rest

/-- Reads the parent. The root of all classes stands for no parent. -/
def readParent (owner : Declaration) (a : Annotation) :
    Except Fault (Option ClassName) :=
  (readArgument owner a parentArgument (some parentIndex)).bind fun
    | none => .ok none
    | some (.classRef c) => .ok (if c = WellKnown.anyClass then none else some c)
    | some value => .error (Cause.invalidConfiguration owner.name.canonical
        (parentArgument ++ " must be a class reference, got " ++ value.describe))

def read (owner : Declaration) (a : Annotation) : Except Fault ScopeConfiguration :=
  (readFlags owner a .none Feature.all).bind fun features =>
    (readParent owner a).map fun parent => { scope := owner.name, parent, features }

def enables (c : ScopeConfiguration) (f : Feature) : Bool := c.features.has f

end ScopeConfiguration

end Bindery
