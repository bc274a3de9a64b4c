import Bindery.Feature
import Bindery.Declaration.Basic
import Bindery.WellKnown

/-!
# Sample declarations

Small declarations of the kinds that generators look for, to try generators on.
-/

namespace Bindery.Sample

def scopeArgument (scope : ClassName) : AnnotationArgument := .named "scope" (.classRef scope)

def scope (name : ClassName) (features : FeatureSet) (parent : Option ClassName) : Declaration :=
  let flags := Feature.all.map fun f =>
    AnnotationArgument.named f.configKey (.bool (features.has f))
  let parents := parent.toList.map fun p => AnnotationArgument.named "parentScope" (.classRef p)
  { name, annotations := [⟨WellKnown.scopeConfiguration, flags ++ parents⟩] }

def component (name scope : ClassName) : Declaration :=
  { name, kind := .interfaceKind,
    annotations := [⟨WellKnown.mergeComponent, [scopeArgument scope]⟩] }

def contributed (name marker scope : ClassName) : Declaration :=
  { name, annotations := [⟨marker, [scopeArgument scope]⟩],
    sourceFile := some ("src/main/" ++ name.simpleName ++ ".kt") }

end Bindery.Sample
