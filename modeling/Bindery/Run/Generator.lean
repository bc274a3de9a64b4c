import Bindery.Run.Contribution
import Bindery.Run.Integration

/-!
# Generators

A generator looks at the whole snapshot and emits units for one feature. Generators run in three
phases, because later ones refer to what earlier ones declare.
-/

namespace Bindery

/-- When a generator runs. -/
inductive Phase where
  | childScopes
  | creation
  | integration
  deriving DecidableEq, Repr

def Phase.rank : Phase → Nat
  | childScopes => 0
  | creation => 1
  | integration => 2

def Phase.all : List Phase := [childScopes, creation, integration]

/-- A generator with its stable name. -/
structure Generator where
  id : String
  feature : Feature
  phase : Phase
  generate : {σ : Type} → [Store σ] → Context → Run σ Unit

namespace Generator

/-- The generator that emits a file for each contribution made with a marker. -/
def creation (id : String) (f : Feature) (marker : ClassName)
    (build : Context → Contribution → Except (List Fault) Source.File) : Generator where
  id := id
  feature := f
  phase := .creation
  generate ctx := do
    let found ← ctx.contributions id marker f
    ctx.createEach id build found

def integration (id : String) (f : Feature) (rule : Integration.Rule) : Generator where
  id := id
  feature := f
  phase := .integration
  generate ctx := do
    let found ← ctx.integrationTargets id f
    ctx.integrateEach id rule found

end Generator

def generatorStretch (id : String) : Stretch where
  name := "generator"
  target := "sealant_kernel::generator"
  fields := [("id", .text id)]

/-- Runs generators one after the other, until one fails or the run is to stop. -/
def runGenerators {σ : Type} [Store σ] (ctx : Context) : List Generator → Run σ Unit
  | [] => pure ()
  | generator :: rest => do
    if ← ctx.shouldStop then Run.remark .debug "Stopping after first diagnostic" ["generator"]
    else
      Run.during (generatorStretch generator.id) (generator.generate ctx)
      runGenerators ctx rest

/-- The result of a domain function in the building of one file. -/
def buildStep {α : Type} (r : Except DomainFault α) : Except (List Fault) α :=
  r.mapError fun fault => [Fault.ofDomain fault]

end Bindery
