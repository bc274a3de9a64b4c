import Bindery.Generators.Appcomponent
import Bindery.Generators.Fragment
import Bindery.Generators.ViewModel
import Bindery.Generators.Work
import Bindery.Run.Report

/-!
# Pipelines

A pipeline is a set of settings with the generators that they leave enabled, in the order in which
they run: by phase, and within a phase as they were registered.
-/

namespace Bindery

/-- A configured run. -/
structure Pipeline where
  settings : Settings
  generators : List Generator

/-- What came of a run. The store and the notes are there after a failure too. -/
structure Finished (σ : Type) where
  result : Except Fault Report
  store : σ
  notes : List Note

namespace Pipeline

/-- The generators that every pipeline has, in the order of registration. -/
def builtIn : List Generator :=
  Appcomponent.generators ++ Fragment.generators ++ ViewModel.generators ++ Work.generators

def generator? (id : String) : Option Generator := builtIn.find? fun g => g.id = id

/-- The name under which faults of scope configurations are recorded. -/
def scopeGraphId : String := "scope-graph"

def noteTarget : String := "sealant::pipeline"

def isEnabled (settings : Settings) (g : Generator) : Bool := settings.features.has g.feature

/-- Generators by phase; those of one phase keep their order. -/
def byPhase (l : List Generator) : List Generator :=
  Phase.all.flatMap fun p => l.filter fun g => g.phase = p

/-- The pipeline of the built-in generators and of further ones behind them. -/
def build (settings : Settings) (extra : List Generator) : Pipeline where
  settings := settings
  generators := byPhase ((builtIn ++ extra).filter (isEnabled settings))

def buildNotes (settings : Settings) (extra : List Generator) : List Note :=
  ((builtIn ++ extra).filter fun g => !isEnabled settings g).map fun _ =>
    { level := .debug, target := noteTarget, message := "Generator disabled by config"
      fields := ["generator", "feature"] }

/-- The names of the generators in the order in which they run. -/
def ids (p : Pipeline) : List String := p.generators.map (·.id)

def describeNames (l : List String) : String := "[" ++ ", ".intercalate (l.map Text.quoted) ++ "]"

def describe (p : Pipeline) : String :=
  Settings.listing "Pipeline"
    [("config", p.settings.describe), ("generators", describeNames p.ids)]

def describeParts (settings : Settings) (extra : List Generator) : String :=
  Settings.listing "PipelineBuilder"
    [("config", settings.describe), ("extra", describeNames (extra.map (·.id)))]

/-- The steps of a run over a forest of scopes. -/
def steps {σ : Type} [Store σ] (p : Pipeline) (ctx : Context) (faults : List Fault) :
    Run σ Unit := do
  Run.note { level := .debug, target := noteTarget, message := "Scope graph ready"
             fields := ["scopes"] }
  ctx.diagnoseAll scopeGraphId faults
  if !(← ctx.shouldStop) then
    runGenerators ctx p.generators
  Run.finish
  Run.note { level := .info, target := noteTarget, message := "Generation finished"
             fields := ["units", "diagnostics", "skips", "elapsed_ms"] }

/-- A run over a table from its beginning to its end. -/
def stretch (t : SymbolTable) : Stretch where
  name := "pipeline"
  target := noteTarget
  fields := [("declarations", .count t.size)]

/-- Runs every generator over a table and hands the units to a store. -/
def run {σ : Type} [Store σ] (p : Pipeline) (t : SymbolTable) (store : σ) : Finished σ :=
  let (graph, faults) := ScopeGraph.build t
  let notes := ScopeGraph.buildNotes t
  match graph.validate with
  | .error fault => ⟨.error fault, store, notes.map (Note.during (stretch t))⟩
  | .ok () =>
    let ctx : Context :=
      { table := t, graph, header := p.settings.header, failFast := p.settings.failFast }
    let (result, session) := (p.steps ctx faults).run { store, notes }
    ⟨result.map fun () => ⟨session.journal⟩, session.store,
      session.notes.map (Note.during (stretch t))⟩

end Pipeline

end Bindery
