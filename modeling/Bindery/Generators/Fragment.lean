import Bindery.Run.Generator

/-!
# Fragments

Fragments contributed to a scope are bound into the map from which a fragment factory creates
them. Every scope that enables the feature exposes the factory through an owner.
-/

namespace Bindery.Fragment

open Source

/-! ## Runtime classes -/

def contributesFragment : ClassName where
  package := "dev.steinerok.sealant.fragment"
  simpleNames := ["ContributesFragment"]

def fragmentKey : ClassName where
  package := "dev.steinerok.sealant.fragment"
  simpleNames := ["FragmentKey"]

def fragmentFactory : ClassName where
  package := "dev.steinerok.sealant.fragment"
  simpleNames := ["SealantFragmentFactory"]

def fragmentFactoryOwner : ClassName where
  package := "dev.steinerok.sealant.fragment"
  simpleNames := ["SealantFragmentFactory", "Owner"]

def featureName : String := "SealantFragment"

def integrationPackage : String := "sealant.integration.fragment"

def replacesArgument : String := "replaces"

def replacesIndex : Nat := 1

/-! ## Creation -/

def replacedModules (d : Declaration) : Except Fault (List ClassName) :=
  match d.annotationOf? contributesFragment with
  | none => .ok []
  | some annotation =>
    (readArgument d annotation replacesArgument (some replacesIndex)).bind fun
      | none => .ok []
      | some value =>
        match value.asClasses? with
        | some classes => .ok classes
        | none => .error (Cause.invalidConfiguration d.name.canonical
            (replacesArgument ++ " must list class references, got " ++ value.describe))

def bindsModule (name scope subject : ClassName) (replaces : List ClassName) : TypeDecl :=
  let contributes := AnnotationUse.contributesTo scope
  { kind := .interfaceType
    name := name.simpleName
    annotations := [⟨WellKnown.moduleAnnotation, []⟩,
      if replaces.isEmpty then contributes
      else contributes.withNamedClasses replacesArgument replaces]
    functions := [
      { name := "bind"
        modifiers := [.abstractMember]
        annotations := [⟨WellKnown.binds, []⟩, ⟨WellKnown.intoMap, []⟩,
          (AnnotationUse.mk fragmentKey []).withClass subject]
        parameters := [{ name := "instance", type := .named subject }]
        returns := some (.named WellKnown.fragment) }] }

def creationFile (ctx : Context) (c : Contribution) : Except (List Fault) File := do
  let subject := c.declaration.name
  if !ctx.table.isSubtype c.declaration WellKnown.fragment then
    throw [{
      cause := .shapeViolation subject.canonical ("must extend " ++ WellKnown.fragment.canonical) }]
  let replaces ← (replacedModules c.declaration).mapError fun fault => [fault]
  let moduleName ← buildStep (Naming.derive subject "BindsModule")
  let fileName ← buildStep (Naming.derive subject "Creation")
  return (ctx.file subject.package fileName.simpleName).withTypes
    [bindsModule moduleName c.scope subject replaces]

def creation : Generator :=
  .creation "fragment-creation" .fragment contributesFragment creationFile

/-! ## Integration -/

/-- Declares the map of fragments, and provides the factory that draws on it. -/
def integrativeModule (name scope : ClassName) : TypeDecl :=
  let fragment := TypeRef.named WellKnown.fragment
  let key := TypeRef.classOut WellKnown.fragment
  { kind := .classType
    name := name.simpleName
    modifiers := [.abstractMember]
    annotations := [⟨WellKnown.moduleAnnotation, []⟩, .contributesTo scope]
    functions := [
      { name := "bindFragmentMap"
        modifiers := [.abstractMember]
        annotations := [⟨WellKnown.multibinds, []⟩]
        returns := some (.mapOf key fragment) }]
    types := [
      { kind := .companion
        functions := [
          { name := "provideFragmentFactory"
            annotations := [⟨WellKnown.provides, []⟩]
            parameters := [
              { name := "fragmentProviderMap"
                type := .mapOf key (.suppressWildcards (.applied WellKnown.provider [fragment])) }]
            returns := some (.named fragmentFactory)
            body := some (.returnNew fragmentFactory ["fragmentProviderMap"]) }] }] }

def ownerType (name scope : ClassName) : TypeDecl where
  kind := .interfaceType
  name := name.simpleName
  annotations := [.contributesTo scope]
  supertypes := [.named fragmentFactoryOwner]

def integrationRule : Integration.Rule where
  package := integrationPackage
  featureName := featureName
  sharedTypes scope := do
    let name ← Naming.scopedName integrationPackage scope (featureName ++ "_IntegrativeModule")
    return [integrativeModule name scope]
  localTypes scope := do
    let name ← Naming.scopedName integrationPackage scope "SealantFragmentFactory_Owner"
    return [ownerType name scope]

def integration : Generator := .integration "fragment-integration" .fragment integrationRule

def generators : List Generator := [creation, integration]

end Bindery.Fragment
