import Bindery.Run.Generator

/-!
# Workers

A contributed worker gets an assisted factory, bound into a map under the name by which the
platform asks for the worker. Every scope that enables the feature exposes the worker factory
through an owner; the outermost such scope declares the map and provides the factory.

A worker extends the listenable worker and has one constructor, marked for assisted injection,
whose assisted parameters are the context and the parameters of the worker.
-/

namespace Bindery.Work

open Source

/-! ## Runtime classes -/

def contributesWorker : ClassName where
  package := "dev.steinerok.sealant.work"
  simpleNames := ["ContributesWorker"]

def workerAssistedFactory : ClassName where
  package := "dev.steinerok.sealant.work"
  simpleNames := ["WorkerAssistedFactory"]

def workerAssistedFactoryMap : ClassName where
  package := "dev.steinerok.sealant.work"
  simpleNames := ["SealantWorkerAssistedFactoryMap"]

def workerFactory : ClassName where
  package := "dev.steinerok.sealant.work"
  simpleNames := ["SealantWorkerFactory"]

def workerFactoryOwner : ClassName where
  package := "dev.steinerok.sealant.work"
  simpleNames := ["SealantWorkerFactory", "Owner"]

def featureName : String := "SealantWork"

def integrationPackage : String := "sealant.integration.work"

/-! ## The shape of a worker -/

/-- An assisted parameter that a worker has to have. -/
structure AssistedParameter where
  name : String
  type : ClassName

def appContext : AssistedParameter := ⟨"appContext", WellKnown.context⟩

def workerParams : AssistedParameter := ⟨"workerParams", WellKnown.workerParameters⟩

def assistedParameters : List AssistedParameter := [appContext, workerParams]

def assistedOf (c : Bindery.Constructor) : List Bindery.Parameter :=
  c.parameters.filter fun p => annotatedWith p.annotations WellKnown.assisted

def parameterProblem (signature : String) (p : Bindery.Parameter) : Option String :=
  match assistedParameters.find? fun expected => expected.name = p.name with
  | none => some ("constructor " ++ signature ++ " has @Assisted parameter '" ++ p.name ++
      "'; only '" ++ appContext.name ++ "' and '" ++ workerParams.name ++ "' are allowed")
  | some expected =>
    if p.type = expected.type then none
    else some ("constructor " ++ signature ++ ": parameter '" ++ p.name ++ "' must be of type " ++
      expected.type.canonical ++ ", found " ++ p.type.canonical)

/-- What is missing if an expected parameter is not among the assisted ones. -/
def absenceProblem (signature : String) (assisted : List Bindery.Parameter)
    (expected : AssistedParameter) : Option String :=
  if assisted.any fun p => p.name = expected.name then none
  else some ("constructor " ++ signature ++ " is missing @Assisted parameter '" ++
    expected.name ++ ": " ++ expected.type.simpleName ++ "'")

def constructorProblems (c : Bindery.Constructor) : List String :=
  let signature := c.signature
  let assisted := assistedOf c
  (if annotatedWith c.annotations WellKnown.assistedInject then []
    else ["constructor " ++ signature ++ " must be annotated with @AssistedInject"]) ++
  (if assisted.length = 2 then []
    else ["constructor " ++ signature ++ " must have exactly two @Assisted parameters, found " ++
      toString assisted.length]) ++
  assisted.filterMap (parameterProblem signature) ++
  assistedParameters.filterMap (absenceProblem signature assisted)

def shapeProblems (t : SymbolTable) (d : Declaration) : List String :=
  (if t.isSubtype d WellKnown.listenableWorker then []
    else ["must extend " ++ WellKnown.listenableWorker.canonical]) ++
  match d.constructors with
  | [c] => constructorProblems c
  | l => ["must have exactly one constructor, found " ++ toString l.length]

def violations (t : SymbolTable) (d : Declaration) : List Fault :=
  (shapeProblems t d).map fun message => { cause := .shapeViolation d.name.canonical message }

/-! ## Creation -/

def factoryType (name subject : ClassName) : TypeDecl where
  kind := .interfaceType
  name := name.simpleName
  annotations := [⟨WellKnown.assistedFactory, []⟩]
  supertypes := [.applied workerAssistedFactory [.named subject]]

def anyFactory : TypeRef :=
  .applied workerAssistedFactory [.producer (.named WellKnown.listenableWorker)]

/-- The module that binds a factory under the name of its worker. -/
def bindsModule (name scope subject factory : ClassName) : TypeDecl where
  kind := .interfaceType
  name := name.simpleName
  annotations := [⟨WellKnown.moduleAnnotation, []⟩, .contributesTo scope]
  functions := [
    { name := "bind"
      modifiers := [.abstractMember]
      annotations := [⟨WellKnown.binds, []⟩, ⟨WellKnown.intoMap, []⟩,
        (AnnotationUse.mk WellKnown.stringKey []).withString subject.reflection,
        ⟨workerAssistedFactoryMap, []⟩]
      parameters := [{ name := "instance", type := .named factory }]
      returns := some anyFactory }]

def creationFile (ctx : Context) (c : Contribution) : Except (List Fault) File := do
  let subject := c.declaration.name
  let found := violations ctx.table c.declaration
  if !found.isEmpty then throw found
  let factoryName ← buildStep (Naming.derive subject "AssistedFactory")
  let moduleName ← buildStep (Naming.derive subject "BindsModule")
  let fileName ← buildStep (Naming.derive subject "Creation")
  return (ctx.file subject.package fileName.simpleName).withTypes
    [factoryType factoryName subject, bindsModule moduleName c.scope subject factoryName]

def creation : Generator := .creation "work-creation" .work contributesWorker creationFile

/-! ## Integration -/

/-- Declares the map of factories, and provides the worker factory that draws on it. -/
def integrativeModule (name scope : ClassName) : TypeDecl where
  kind := .classType
  name := name.simpleName
  modifiers := [.abstractMember]
  annotations := [⟨WellKnown.moduleAnnotation, []⟩, .contributesTo scope]
  functions := [
    { name := "bindWafMap"
      modifiers := [.abstractMember]
      annotations := [⟨WellKnown.multibinds, []⟩, ⟨workerAssistedFactoryMap, []⟩]
      returns := some (.mapOf (.named WellKnown.stringClass) anyFactory) }]
  types := [
    { kind := .companion
      functions := [
        { name := "provideWorkerFactory"
          annotations := [⟨WellKnown.provides, []⟩]
          parameters := [
            { name := "wafProviderMap"
              type := .mapOf (.named WellKnown.stringClass)
                (.suppressWildcards (.applied WellKnown.provider [anyFactory]))
              annotations := [⟨workerAssistedFactoryMap, []⟩] }]
          returns := some (.named workerFactory)
          body := some (.returnNew workerFactory ["wafProviderMap"]) }] }]

def ownerType (name scope : ClassName) : TypeDecl where
  kind := .interfaceType
  name := name.simpleName
  annotations := [.contributesTo scope]
  supertypes := [.named workerFactoryOwner]

def integrationRule : Integration.Rule where
  package := integrationPackage
  featureName := featureName
  sharedTypes scope := do
    let name ← Naming.scopedName integrationPackage scope (featureName ++ "_IntegrativeModule")
    return [integrativeModule name scope]
  localTypes scope := do
    let name ← Naming.scopedName integrationPackage scope "SealantWorkerFactory_Owner"
    return [ownerType name scope]

def integration : Generator := .integration "work-integration" .work integrationRule

def generators : List Generator := [creation, integration]

end Bindery.Work
