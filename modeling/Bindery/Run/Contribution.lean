import Bindery.Run.Session
import Bindery.Scope.Resolution

/-!
# Contributions

Users contribute declarations to scopes with marker annotations. A contribution counts for a
feature if the scope of the declaration itself enables the feature.
-/

namespace Bindery

/-- A declaration with the scope that it is contributed to. -/
structure Contribution where
  declaration : Declaration
  scope : ClassName

namespace Context

variable {σ : Type}

/-- The contributions among some declarations that carry a marker. A declaration whose scope cannot
be resolved is recorded and dropped. -/
def contributionsAmong (ctx : Context) (generator : String) (marker : ClassName) (f : Feature) :
    List Declaration → Run σ (List Contribution)
  | [] => pure []
  | d :: rest => do
    if ← ctx.shouldStop then pure []
    else
      match Resolution.scopeOf ctx.table d [marker] with
      | .error fault =>
        ctx.diagnose generator fault
        ctx.contributionsAmong generator marker f rest
      | .ok scope =>
        if ctx.graph.enabled scope f then
          let found ← ctx.contributionsAmong generator marker f rest
          pure (⟨d, scope⟩ :: found)
        else
          Run.remark .debug "Feature disabled for scope" ["generator", "declaration", "scope"]
          ctx.contributionsAmong generator marker f rest

/-- The contributions made with a marker to scopes that enable a feature. -/
def contributions (ctx : Context) (generator : String) (marker : ClassName) (f : Feature) :
    Run σ (List Contribution) :=
  ctx.contributionsAmong generator marker f (ctx.table.annotated marker)

/-- Emits a file for each contribution, or records why there is none. -/
def createEach [Store σ] (ctx : Context) (generator : String)
    (build : Context → Contribution → Except (List Fault) Source.File) :
    List Contribution → Run σ Unit
  | [] => pure ()
  | c :: rest => do
    if ← ctx.shouldStop then pure ()
    else
      match build ctx c with
      | .ok file => ctx.emit generator file c.declaration
      | .error faults => ctx.diagnoseAll generator faults
      ctx.createEach generator build rest

end Context

end Bindery
