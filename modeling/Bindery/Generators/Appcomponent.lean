import Bindery.Run.Generator

/-!
# Injectors of framework classes

Framework classes that cannot be constructed by injection, such as activities and services, are
marked with the scope that injects into them. Each gets an injector around its members injector,
bound into the map of activity injectors or into the map of other injectors. Every scope that
enables the feature exposes the maps through an owner.
-/

namespace Bindery.Appcomponent

open Source

/-! ## Runtime classes -/

def injectWith : ClassName where
  package := "dev.steinerok.sealant.appcomponent"
  simpleNames := ["InjectWith"]

def injector : ClassName where
  package := "dev.steinerok.sealant.appcomponent"
  simpleNames := ["SealantInjector"]

def injectorsOwner : ClassName where
  package := "dev.steinerok.sealant.appcomponent"
  simpleNames := ["SealantInjectorsOwner"]

def activityInjectorsMap : ClassName where
  package := "dev.steinerok.sealant.appcomponent"
  simpleNames := ["SealantActivityInjectorsMap"]

def otherInjectorsMap : ClassName where
  package := "dev.steinerok.sealant.appcomponent"
  simpleNames := ["SealantOtherInjectorsMap"]

def activityKey : ClassName where
  package := "dev.steinerok.sealant.appcomponent"
  simpleNames := ["ActivityKey"]

def featureName : String := "SealantAppcomponent"

def integrationPackage : String := "sealant.integration.appcomponent"

/-! ## Creation -/

/-- The injector of a class: it passes on the members injector that it is given. -/
def injectorType (name subject : ClassName) : TypeDecl where
  kind := .classType
  name := name.simpleName
  primaryConstructor := some {
    annotations := [⟨WellKnown.inject, []⟩]
    parameters := [
      { name := "injector"
        type := .applied WellKnown.membersInjector [.named subject]
        property := .overrideVal }] }
  supertypes := [.applied injector [.named subject]]

def bindsModule (name : ClassName) (scope subject bound key : ClassName) : TypeDecl where
  kind := .interfaceType
  name := name.simpleName
  annotations := [⟨WellKnown.moduleAnnotation, []⟩, .contributesTo scope]
  functions := [
    { name := "bind"
      modifiers := [.abstractMember]
      annotations := [⟨WellKnown.binds, []⟩, ⟨WellKnown.intoMap, []⟩,
        (AnnotationUse.mk key []).withClass subject]
      parameters := [{ name := "instance", type := .named bound }]
      returns := some (.applied injector [.star]) }]

/-- The file of a marked class: its injector, and the module that binds it. -/
def injectionFile (ctx : Context) (c : Contribution) : Except (List Fault) File := do
  let subject := c.declaration.name
  let injectorName ← buildStep (Naming.derive subject "SealantInjector")
  let moduleName ← buildStep (Naming.derive injectorName "BindsModule")
  let fileName ← buildStep (Naming.derive subject "Injection")
  let key := if ctx.table.isSubtype c.declaration WellKnown.activity then activityKey
    else WellKnown.classKey
  return (ctx.file subject.package fileName.simpleName).withTypes
    [injectorType injectorName subject, bindsModule moduleName c.scope subject injectorName key]

def creation : Generator :=
  .creation "appcomponent-creation" .appcomponent injectWith injectionFile

/-! ## Integration -/

def mapsModule (name scope : ClassName) : TypeDecl where
  kind := .interfaceType
  name := name.simpleName
  annotations := [⟨WellKnown.moduleAnnotation, []⟩, .contributesTo scope]
  functions := [
    { name := "activityInjectors"
      modifiers := [.abstractMember]
      annotations := [⟨WellKnown.multibinds, []⟩]
      returns := some (.named activityInjectorsMap) },
    { name := "otherInjectors"
      modifiers := [.abstractMember]
      annotations := [⟨WellKnown.multibinds, []⟩]
      returns := some (.named otherInjectorsMap) }]

def ownerType (name scope supertype : ClassName) : TypeDecl where
  kind := .interfaceType
  name := name.simpleName
  annotations := [.contributesTo scope]
  supertypes := [.named supertype]

def integrationRule : Integration.Rule where
  package := integrationPackage
  featureName := featureName
  sharedTypes scope := do
    let name ← Naming.scopedName integrationPackage scope (featureName ++ "_IntegrativeModule")
    return [mapsModule name scope]
  localTypes scope := do
    let name ← Naming.scopedName integrationPackage scope "SealantInjectorsOwner"
    return [ownerType name scope injectorsOwner]

def integration : Generator :=
  .integration "appcomponent-integration" .appcomponent integrationRule

def generators : List Generator := [creation, integration]

end Bindery.Appcomponent
