import Bindery.Naming.Derived
import Bindery.Run.Session
import Bindery.Scope.Resolution

/-!
# Integration

A scope is integrated where a component is merged for it, or where a declaration lists it among
the scopes it integrates. Of several such declarations the first one counts: declarations are
ordered by name, and the scope of a component stands in front of the scopes it lists.
-/

namespace Bindery

/-- A scope to integrate, with the declaration that asked for it first. -/
structure IntegrationTarget where
  declaration : Declaration
  scope : ClassName
  /-- The nearest ancestor that enables the feature too. -/
  inheritedFrom : Option ClassName

namespace Integration

def scopesArgument : String := "scopes"

def listedScopes (d : Declaration) (a : Annotation) : Except Fault (List ClassName) :=
  (readArgument d a scopesArgument (some 0)).bind fun
    | none => .error (Cause.missingScope d.name.canonical
        ("@" ++ a.annotationClass.simpleName ++ " lists no scopes"))
    | some value =>
      match value.asClasses? with
      | some classes => .ok classes.eraseDups
      | none => .error (Cause.invalidConfiguration d.name.canonical
          (scopesArgument ++ " of @" ++ a.annotationClass.simpleName ++
            " must be class references"))

def componentRequest (t : SymbolTable) (d : Declaration) : Option (Except Fault (List ClassName)) :=
  if WellKnown.componentMarkers.any d.hasAnnotation then
    some ((Resolution.scopeOf t d WellKnown.componentMarkers).map fun scope => [scope])
  else none

def listRequest (d : Declaration) : Option (Except Fault (List ClassName)) :=
  (d.annotationOf? WellKnown.multiScopeIntegration).map (listedScopes d)

def requests (t : SymbolTable) (d : Declaration) : List (Except Fault (List ClassName)) :=
  (componentRequest t d).toList ++ (listRequest d).toList

def resolved (l : List (Except Fault (List ClassName))) : List ClassName :=
  l.flatMap fun r => r.toOption.getD []

def unresolved (l : List (Except Fault (List ClassName))) : List Fault :=
  l.filterMap fun
    | .ok _ => none
    | .error fault => some fault

def candidates (t : SymbolTable) : List Candidate :=
  t.declarations.flatMap fun d => (resolved (requests t d)).map fun scope => ⟨d, scope⟩

def faults (t : SymbolTable) : List Fault :=
  t.declarations.flatMap fun d => unresolved (requests t d)

/-- How a feature is integrated into a scope. -/
structure Rule where
  package : String
  featureName : String
  /-- The types that an ancestor provides already if it enables the feature. -/
  sharedTypes : ClassName → Except DomainFault (List Source.TypeDecl)
  /-- The types that every scope gets. -/
  localTypes : ClassName → Except DomainFault (List Source.TypeDecl)

end Integration

namespace Context

open Integration

variable {σ : Type}

/-- The candidates of the run. They are resolved for the generator that asks first, and faults are
recorded then. -/
def integrationCandidates (ctx : Context) (generator : String) : Run σ (List Candidate) := do
  match (← get).candidates with
  | some found => pure found
  | none =>
    let found := candidates ctx.table
    modify fun s => { s with candidates := some found }
    ctx.diagnoseAll generator (faults ctx.table)
    pure found

/-- The targets among candidates, given the declarations kept for scopes so far. -/
def targetsAmong (ctx : Context) (generator : String) (f : Feature)
    (kept : OrderedMap ClassName ClassName) : List Candidate → Run σ (List IntegrationTarget)
  | [] => pure []
  | c :: rest => do
    if ctx.graph.enabled c.scope f then
      match kept.get? c.scope with
      | some first =>
        ctx.skip ⟨generator, c.scope, c.declaration.name, .duplicateScope first⟩
        ctx.targetsAmong generator f kept rest
      | none =>
        let inheritedFrom ← Run.ofExcept (ctx.graph.nearestEnabling c.scope f)
        let kept := kept.insert c.scope c.declaration.name
        let found ← ctx.targetsAmong generator f kept rest
        pure (⟨c.declaration, c.scope, inheritedFrom⟩ :: found)
    else ctx.targetsAmong generator f kept rest

/-- The scopes to integrate for a feature, each once. -/
def integrationTargets (ctx : Context) (generator : String) (f : Feature) :
    Run σ (List IntegrationTarget) := do
  let found ← ctx.integrationCandidates generator
  ctx.targetsAmong generator f .empty found

def integrate [Store σ] (ctx : Context) (generator : String) (rule : Rule)
    (target : IntegrationTarget) : Run σ Unit := do
  let file := ctx.file rule.package (Naming.integrationFile target.scope rule.featureName)
  let shared ← match target.inheritedFrom with
    | some ancestor => do
      ctx.skip ⟨generator, target.scope, target.declaration.name, .inheritedFromAncestor ancestor⟩
      pure []
    | none => Run.ofExcept (liftDomain (rule.sharedTypes target.scope))
  let own ← Run.ofExcept (liftDomain (rule.localTypes target.scope))
  ctx.emit generator (file.withTypes (shared ++ own)) target.declaration

def integrateEach [Store σ] (ctx : Context) (generator : String) (rule : Rule) :
    List IntegrationTarget → Run σ Unit
  | [] => pure ()
  | target :: rest => do
    if ← ctx.shouldStop then pure ()
    else
      ctx.integrate generator rule target
      ctx.integrateEach generator rule rest

end Context

end Bindery
