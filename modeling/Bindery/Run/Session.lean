import Bindery.Naming.Registry
import Bindery.Run.Journal
import Bindery.Scope.Graph

/-!
# Sessions

A run works in a fixed context and changes a session: the names claimed so far, the store, the
journal and the notes. A step of a run that fails leaves behind what it did before it failed.
-/

namespace Bindery

/-- What all steps of a run look at. -/
structure Context where
  table : SymbolTable
  graph : ScopeGraph
  header : HeaderSettings
  failFast : Bool := false

/-- A declaration that asks for a scope to be integrated. -/
structure Candidate where
  declaration : Declaration
  scope : ClassName

/-- What the steps of a run change. -/
structure Session (σ : Type) where
  store : σ
  names : NameRegistry := .empty
  journal : Journal := {}
  /-- The candidates for integration, once a generator has asked for them. -/
  candidates : Option (List Candidate) := none
  notes : List Note := []

abbrev Run (σ : Type) := ExceptT Fault (StateM (Session σ))

namespace Run

variable {σ : Type}

def note (n : Note) : Run σ Unit := modify fun s => { s with notes := s.notes ++ [n] }

def remark (level : Level) (message : String) (fields : List String) : Run σ Unit :=
  note { level, target := "sealant_kernel::generator", message, fields }

/-- A step as a stretch of the run: what it notes is noted as part of the stretch. -/
def during {α : Type} (stretch : Stretch) (step : Run σ α) : Run σ α :=
  ExceptT.mk fun s =>
    let (result, after) := step.run s
    let earlier := s.notes.length
    (result, { after with
      notes := after.notes.take earlier ++ (after.notes.drop earlier).map (Note.during stretch) })

def ofExcept {α : Type} (r : Except Fault α) : Run σ α := ExceptT.mk (pure r)

/-- Claims names one after the other. Names claimed before a refusal stay claimed. -/
def claimAll (c : Claim) : List ClassName → Run σ Unit
  | [] => pure ()
  | name :: rest => do
    let s ← get
    let names ← ofExcept (s.names.claim name c)
    set { s with names }
    claimAll c rest

def keep [Store σ] (u : GeneratedUnit) : Run σ Unit := do
  let s ← get
  let outcome := Store.emit s.store u
  set { s with store := outcome.store, notes := s.notes ++ outcome.notes }
  ofExcept outcome.result

def finish [Store σ] : Run σ Unit := do
  let s ← get
  let outcome := Store.finish s.store
  set { s with store := outcome.store, notes := s.notes ++ outcome.notes }
  ofExcept outcome.result

end Run

namespace Context

variable {σ : Type}

def file (ctx : Context) (package name : String) : Source.File :=
  Source.File.withHeader { package, name } ctx.header

/-- Claims the top-level names of a file for a declaration and hands the file to the store. -/
def emit [Store σ] (_ : Context) (generator : String) (file : Source.File)
    (origin : Declaration) : Run σ Unit := do
  let names ← Run.ofExcept (liftDomain file.topLevelNames)
  Run.claimAll ⟨generator, origin.name.canonical⟩ names
  let provenance := origin.sourceFile.toList
  let u : GeneratedUnit := { generator, file, provenance }
  Run.keep u
  Run.remark .debug "Unit emitted" ["generator", "unit", "origin"]
  modify fun s =>
    { s with journal.emitted := s.journal.emitted ++ [{ generator, key := u.key, provenance }] }

def sourceFileOf (ctx : Context) (declaration : Option String) : Option String :=
  declaration.bind fun text =>
    (ClassName.parse text).toOption.bind fun name =>
      (ctx.table.find? name).bind (·.sourceFile)

/-- Records a fault of one declaration. A fatal fault ends the step instead. -/
def diagnose (ctx : Context) (generator : String) (fault : Fault) : Run σ Unit :=
  if fault.isFatal then throw fault
  else do
    Run.remark .warn fault.message ["generator", "kind"]
    let d : Diagnostic :=
      { generator, kind := fault.kind, declaration := fault.declaration?
        sourceFile := ctx.sourceFileOf fault.declaration?, message := fault.message }
    modify fun s => { s with journal.diagnostics := s.journal.diagnostics ++ [d] }

def diagnoseAll (ctx : Context) (generator : String) : List Fault → Run σ Unit
  | [] => pure ()
  | fault :: rest => do
    ctx.diagnose generator fault
    ctx.diagnoseAll generator rest

def skip (_ : Context) (s : Skip) : Run σ Unit := do
  Run.remark .debug "Skipped" ["generator", "scope", "declaration", "reason"]
  modify fun session => { session with journal.skips := session.journal.skips ++ [s] }

/-- Whether the run is to stop because a declaration was rejected. -/
def shouldStop (ctx : Context) : Run σ Bool := do
  return ctx.failFast && !(← get).journal.diagnostics.isEmpty

end Context

end Bindery
