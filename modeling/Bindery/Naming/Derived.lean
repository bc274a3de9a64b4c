import Bindery.ClassName

/-!
# Derived names

Every generated name is a function of the name it is derived from and a fixed suffix, so that two
runs over the same snapshot agree.
-/

namespace Bindery.Naming

/-- What stands between the parts of a derived name. -/
def separator : String := "_"

/-- What stands in front of the name of a child scope. -/
def childScopeStart : String := "ViewModel_"

def flat (c : ClassName) : String := c.joined separator

/-- A class beside the given one, named after it. -/
def derive (base : ClassName) (suffix : String) : Except DomainFault ClassName :=
  base.peer (flat base ++ separator ++ suffix)

/-- The child scope of a scope that enables view-models. Only the innermost name counts. -/
def childScope (scope : ClassName) : Except DomainFault ClassName :=
  scope.peer (childScopeStart ++ scope.simpleName)

/-- The name of the file that integrates a feature into a scope. -/
def integrationFile (scope : ClassName) (featureName : String) : String :=
  flat scope ++ separator ++ featureName ++ separator ++ "Integration"

def scopedName (package : String) (scope : ClassName) (suffix : String) :
    Except DomainFault ClassName :=
  ClassName.ofParts package [flat scope ++ separator ++ suffix]

end Bindery.Naming
