import Bindery.Run.Generator

/-!
# View-models

View-models live in a graph of their own below each scope. A scope that enables the feature gets a
child scope, and unless an ancestor provides it already a subcomponent over that child scope. A
contributed view-model is bound into the map of the child scope, and its class into the set of
keys of the scope itself.
-/

namespace Bindery.ViewModel

open Source

/-! ## Runtime classes -/

def contributesViewModel : ClassName where
  package := "dev.steinerok.sealant.viewmodel"
  simpleNames := ["ContributesViewModel"]

/-- Marks a module to be installed into the child scope. -/
def contributesToViewModel : ClassName where
  package := "dev.steinerok.sealant.viewmodel"
  simpleNames := ["ContributesToViewModel"]

def viewModelScope : ClassName where
  package := "dev.steinerok.sealant.viewmodel"
  simpleNames := ["SealantViewModelScope"]

def viewModelMap : ClassName where
  package := "dev.steinerok.sealant.viewmodel"
  simpleNames := ["SealantViewModelMap"]

def keySet : ClassName where
  package := "dev.steinerok.sealant.viewmodel"
  simpleNames := ["SealantViewModelMap", "KeySet"]

def subcomponentMap : ClassName where
  package := "dev.steinerok.sealant.viewmodel"
  simpleNames := ["SealantViewModelMap", "SubcomponentMap"]

def viewModelKey : ClassName where
  package := "dev.steinerok.sealant.viewmodel"
  simpleNames := ["ViewModelKey"]

def subcomponent : ClassName where
  package := "dev.steinerok.sealant.viewmodel"
  simpleNames := ["SealantViewModelSubcomponent"]

def subcomponentFactory : ClassName where
  package := "dev.steinerok.sealant.viewmodel"
  simpleNames := ["SealantViewModelSubcomponent", "Factory"]

def subcomponentParent : ClassName where
  package := "dev.steinerok.sealant.viewmodel"
  simpleNames := ["SealantViewModelSubcomponent", "Parent"]

def factoriesOwner : ClassName where
  package := "dev.steinerok.sealant.viewmodel"
  simpleNames := ["ViewModelFactoriesOwner"]

def factoryCreatorOwner : ClassName where
  package := "dev.steinerok.sealant.viewmodel"
  simpleNames := ["SealantViewModelFactoryCreator", "Owner"]

def featureName : String := "SealantViewModel"

def integrationPackage : String := "sealant.integration.viewmodel"

/-! ## Child scopes -/

def childScopesId : String := "viewmodel-child-scopes"

def childScopeType (name : ClassName) : TypeDecl where
  kind := .classType
  name := name.simpleName
  modifiers := [.abstractMember]
  primaryConstructor := some { modifiers := [.privateAccess] }

/-- Emits the child scope of one configured scope, if it enables the feature. -/
def emitChildScope {σ : Type} [Store σ] (ctx : Context) (c : ScopeConfiguration) : Run σ Unit :=
  if c.enables .viewModel then
    match ctx.table.find? c.scope with
    | none =>
      throw ⟨.internal
        ("configured scope " ++ c.scope.canonical ++ " is missing from the snapshot"), none⟩
    | some origin => do
      let child ← Run.ofExcept (liftDomain (Naming.childScope c.scope))
      Run.note { level := .debug, target := "sealant_viewmodel::child_scopes"
                 message := "Child scope", fields := ["scope", "child"] }
      let fileName ← Run.ofExcept (liftDomain (Naming.derive c.scope "SealantChildScopes"))
      let file := (ctx.file c.scope.package fileName.simpleName).withTypes [childScopeType child]
      ctx.emit childScopesId file origin
  else pure ()

def emitChildScopes {σ : Type} [Store σ] (ctx : Context) : List ScopeConfiguration → Run σ Unit
  | [] => pure ()
  | c :: rest => do
    if ← ctx.shouldStop then pure ()
    else
      emitChildScope ctx c
      emitChildScopes ctx rest

def childScopes : Generator where
  id := childScopesId
  feature := .viewModel
  phase := .childScopes
  generate ctx := emitChildScopes ctx ctx.graph.scopes

/-! ## Creation -/

def keyModule (name scope subject : ClassName) : TypeDecl where
  kind := .objectType
  name := name.simpleName
  annotations := [⟨WellKnown.moduleAnnotation, []⟩, .contributesTo scope]
  functions := [
    { name := "provide" ++ Naming.flat subject ++ "Key"
      annotations := [⟨WellKnown.provides, []⟩, ⟨WellKnown.intoSet, []⟩, ⟨keySet, []⟩]
      returns := some (.classOut WellKnown.viewModel)
      body := some (.returnClass subject) }]

def bindsModule (name childScope subject : ClassName) : TypeDecl where
  kind := .interfaceType
  name := name.simpleName
  annotations := [⟨WellKnown.moduleAnnotation, []⟩, .contributesTo childScope]
  functions := [
    { name := "bind"
      modifiers := [.abstractMember]
      annotations := [⟨WellKnown.binds, []⟩, ⟨WellKnown.intoMap, []⟩,
        (AnnotationUse.mk viewModelKey []).withClass subject, ⟨viewModelMap, []⟩]
      parameters := [{ name := "instance", type := .named subject }]
      returns := some (.named WellKnown.viewModel) }]

def creationFile (ctx : Context) (c : Contribution) : Except (List Fault) File := do
  let subject := c.declaration.name
  if !ctx.table.isSubtype c.declaration WellKnown.viewModel then
    throw [{
      cause :=
        .shapeViolation subject.canonical ("must extend " ++ WellKnown.viewModel.canonical) }]
  let childScope ← buildStep (Naming.childScope c.scope)
  let keyModuleName ← buildStep (Naming.derive subject "KeyModule")
  let bindsModuleName ← buildStep (Naming.derive subject "BindsModule")
  let fileName ← buildStep (Naming.derive subject "Creation")
  return (ctx.file subject.package fileName.simpleName).withTypes
    [keyModule keyModuleName c.scope subject, bindsModule bindsModuleName childScope subject]

def creation : Generator :=
  .creation "viewmodel-creation" .viewModel contributesViewModel creationFile

/-! ## Wrapped modules -/

/-- An interface that includes a module of the user in the child scope. -/
def wrapperType (name childScope subject : ClassName) : TypeDecl where
  kind := .interfaceType
  name := name.simpleName
  annotations := [
    (AnnotationUse.mk WellKnown.moduleAnnotation []).withNamedClasses "includes" [subject],
    .contributesTo childScope]

def wrapperFile (ctx : Context) (c : Contribution) : Except (List Fault) File := do
  let subject := c.declaration.name
  let childScope ← buildStep (Naming.childScope c.scope)
  let name ← buildStep (Naming.derive subject "Wrapper")
  return (ctx.file subject.package name.simpleName).withTypes
    [wrapperType name childScope subject]

def wrapper : Generator :=
  .creation "viewmodel-wrapper" .viewModel contributesToViewModel wrapperFile

/-! ## Integration -/

def factoryType (subcomponentName : ClassName) : TypeDecl where
  kind := .interfaceType
  name := "Factory"
  annotations := [⟨WellKnown.mergeSubcomponentFactory, []⟩]
  supertypes := [.named subcomponentFactory]
  functions := [
    { name := "create"
      modifiers := [.abstractMember, .overriding]
      parameters := [
        { name := "ssHandle"
          type := .named WellKnown.savedStateHandle
          annotations := [⟨WellKnown.bindsInstance, []⟩] }]
      returns := some (.named subcomponentName) }]

def parentType (scope : ClassName) : TypeDecl where
  kind := .interfaceType
  name := "Parent"
  annotations := [.contributesTo scope]
  supertypes := [.named subcomponentParent]

def subcomponentType (scope childScope name : ClassName) : TypeDecl where
  kind := .interfaceType
  name := name.simpleName
  annotations := [
    (AnnotationUse.mk WellKnown.singleIn []).withClass viewModelScope,
    (AnnotationUse.mk WellKnown.mergeSubcomponent []).withNamedClass "scope" childScope]
  supertypes := [.named subcomponent]
  types := [factoryType name, parentType scope]

/-- Declares the set of keys, and binds the factory of the subcomponent under its scope. -/
def subcomponentModule (name scope subcomponentName factory : ClassName) : TypeDecl where
  kind := .interfaceType
  name := name.simpleName
  annotations := [
    (AnnotationUse.mk WellKnown.moduleAnnotation []).withNamedClasses "subcomponents"
      [subcomponentName],
    .contributesTo scope]
  functions := [
    { name := "bindVmClassSet"
      modifiers := [.abstractMember]
      annotations := [⟨WellKnown.multibinds, []⟩, ⟨keySet, []⟩]
      returns := some (.setOf (.classOut WellKnown.viewModel)) },
    { name := "bind"
      modifiers := [.abstractMember]
      annotations := [⟨WellKnown.binds, []⟩, ⟨WellKnown.intoMap, []⟩,
        (AnnotationUse.mk WellKnown.stringKey []).withString scope.reflection,
        ⟨subcomponentMap, []⟩]
      parameters := [{ name := "instance", type := .named factory }]
      returns := some (.named subcomponentFactory) }]

/-- Declares the map of view-models in the child scope, which may stay empty. -/
def factoriesModule (name childScope : ClassName) : TypeDecl where
  kind := .interfaceType
  name := name.simpleName
  annotations := [⟨WellKnown.moduleAnnotation, []⟩, .contributesTo childScope]
  functions := [
    { name := "bindWmMap"
      modifiers := [.abstractMember]
      annotations := [⟨WellKnown.multibinds, []⟩, ⟨viewModelMap, []⟩]
      returns := some
        (.mapOf (.classOut WellKnown.viewModel) (.named WellKnown.viewModel)) }]

def ownerType (name contributedTo supertype : ClassName) : TypeDecl where
  kind := .interfaceType
  name := name.simpleName
  annotations := [.contributesTo contributedTo]
  supertypes := [.named supertype]

/-- The name of a type in the unit that integrates view-models into a scope. -/
def scopedName (scope : ClassName) (suffix : String) : Except DomainFault ClassName :=
  Naming.scopedName integrationPackage scope suffix

def integrationRule : Integration.Rule where
  package := integrationPackage
  featureName := featureName
  sharedTypes scope := do
    let subcomponentName ← scopedName scope "SealantViewModelSubcomponent"
    let childScope ← Naming.childScope scope
    let moduleName ← scopedName scope "SealantViewModelSubcomponent_IntegrativeModule"
    let factory ← subcomponentName.nested "Factory"
    return [subcomponentType scope childScope subcomponentName,
      subcomponentModule moduleName scope subcomponentName factory]
  localTypes scope := do
    let childScope ← Naming.childScope scope
    let creatorOwner ← scopedName scope "SealantViewModelFactoryCreator_Owner"
    let factories ← scopedName scope "ViewModelFactories_IntegrativeModule"
    let owner ← scopedName scope "ViewModelFactoriesOwner"
    return [ownerType creatorOwner scope factoryCreatorOwner, factoriesModule factories childScope,
      ownerType owner childScope factoriesOwner]

def integration : Generator := .integration "viewmodel-integration" .viewModel integrationRule

/-- The generators of the feature: child scopes, creation, wrapped modules, integration. -/
def generators : List Generator := [childScopes, creation, wrapper, integration]

end Bindery.ViewModel
