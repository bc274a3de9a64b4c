import Bindery.Command.Basic
import Bindery.Emission.FileStore
import Bindery.Emission.Memory
import Bindery.Run.Pipeline
import Bindery.Scope.Outline
import Bindery.Settings.Load
import Bindery.Symbols.Load

/-!
# Running commands

A command works on a desk: the disk, what was printed, and what was noted. It ends with a verdict
on the declarations, or fails; the desk shows what was done before a failure.
-/

namespace Bindery

/-- What a command says about the declarations that it looked at. -/
inductive Verdict where
  | clean
  | diagnostics
  deriving DecidableEq, Repr

def Verdict.ofClean (isClean : Bool) : Verdict := if isClean then clean else diagnostics

/-- What made a command fail. -/
inductive FailureReason where
  | fault (fault : Fault)
  | io (kind : IoKind)
  deriving DecidableEq

/-- Why a command failed: what was being done, the outermost first, and the reason. -/
structure Failure where
  doing : List String := []
  reason : FailureReason
  deriving DecidableEq

namespace Failure

def ofFault (f : Fault) : Failure := { reason := .fault f }

def within (doing : String) (f : Failure) : Failure := { f with doing := doing :: f.doing }

def sentences (f : Failure) : List String :=
  f.doing ++ [match f.reason with
    | .fault fault => fault.message
    | .io kind => kind.name]

end Failure

/-- What commands need to know about the world around them. -/
structure Surroundings where
  /-- Tells the temporary files of this program from those of others. -/
  processTag : String
  /-- The time that files carry. -/
  clock : String
  /-- The time that a run is said to have taken. -/
  elapsedMs : Nat := 0

/-- What a command changes. -/
structure Desk where
  disk : Disk
  printed : String := ""
  notes : List Note := []

abbrev Job := ExceptT Failure (StateM Desk)

namespace Job

def print (line : String) : Job Unit :=
  modify fun desk => { desk with printed := desk.printed ++ line ++ "\n" }

def printAll : List String → Job Unit
  | [] => pure ()
  | line :: rest => do
    print line
    printAll rest

def note (notes : List Note) : Job Unit :=
  modify fun desk => { desk with notes := desk.notes ++ notes }

def ofExcept {α : Type} (r : Except Failure α) : Job α := ExceptT.mk (pure r)

def ofFault {α : Type} (r : Except Fault α) : Job α := ofExcept (r.mapError Failure.ofFault)

end Job

namespace GenerateRequest

def adjust (request : GenerateRequest) (settings : Settings) : Settings where
  features :=
    if request.features.isEmpty then settings.features else FeatureSet.ofList request.features
  failFast := settings.failFast || request.failFast
  output := { settings.output with
    dir := request.out.getD settings.output.dir
    cleanStale := settings.output.cleanStale || request.clean }
  header := settings.header
  logging := settings.logging

end GenerateRequest

namespace Command

def loadSnapshot (path : String) : Job SymbolTable := do
  let loaded := Snapshot.loadPath (← get).disk path
  let t ← Job.ofExcept (loaded.mapError fun fault =>
    (Failure.ofFault fault).within ("Failed to load snapshot " ++ path))
  Job.note [Snapshot.loadedNote]
  pure t

/-- The line for a diagnostic, with the source file if it is known. -/
def diagnosticLine (d : Diagnostic) : String :=
  let location := match d.sourceFile with
    | some path => " " ++ path
    | none => ""
  "error[" ++ d.kind ++ "]" ++ location ++ ": " ++ d.message

def faultLine (f : Fault) : String := "error[" ++ f.kind ++ "]: " ++ f.message

def reportNote : Note where
  level := .info
  target := "sealant_cli"
  message := "Report written"
  fields := ["path"]

def writeReport (around : Surroundings) (r : Report) : Option String → Job Unit
  | none => pure ()
  | some path => do
    let desk ← get
    let text := (r.toJson around.elapsedMs).pretty
    match desk.disk.writeFile path (.text text) with
    | .ok disk =>
      set { desk with disk }
      Job.note [reportNote]
    | .error kind =>
      throw { doing := ["Failed to write report " ++ path], reason := .io kind }

def conclude (around : Surroundings) (r : Report) (path : Option String) : Job Verdict := do
  Job.printAll (r.journal.diagnostics.map diagnosticLine)
  writeReport around r path
  pure (.ofClean r.isClean)

def runPipeline {σ : Type} [Store σ] (settings : Settings) (t : SymbolTable) (store : σ) :
    Job (Finished σ) := do
  let finished := (Pipeline.build settings []).run t store
  Job.note (Pipeline.buildNotes settings [] ++ finished.notes)
  pure finished

/-- Generates without writing sources, and lists the units. -/
def listUnits (settings : Settings) (t : SymbolTable) : Job Report := do
  let finished ← runPipeline settings t MemoryStore.empty
  let r ← Job.ofFault finished.result
  Job.printAll (finished.store.keys.map UnitKey.text)
  pure r

def writeUnits (around : Surroundings) (settings : Settings) (t : SymbolTable) : Job Report := do
  let desk ← get
  let finished ← runPipeline settings t
    (FileStore.ofSettings desk.disk settings.output around.processTag around.clock)
  modify fun desk => { desk with disk := finished.store.disk }
  let r ← Job.ofFault finished.result
  Job.print ("Generated " ++ toString r.journal.emitted.length ++ " units into " ++
    settings.output.dir)
  pure r

def generateUnits (around : Surroundings) (settings : Settings) (request : GenerateRequest) :
    Job Verdict := do
  let settings := request.adjust settings
  let t ← loadSnapshot request.symbols
  let r ← if request.dryRun then listUnits settings t else writeUnits around settings t
  conclude around r request.report

def checkSnapshot (around : Surroundings) (settings : Settings) (symbols : String)
    (report : Option String) : Job Verdict := do
  let t ← loadSnapshot symbols
  let finished ← runPipeline settings t MemoryStore.empty
  let r ← Job.ofFault finished.result
  Job.print ("Checked " ++ toString t.size ++ " declarations: " ++
    toString r.journal.emitted.length ++ " units, " ++ toString r.journal.skips.length ++
    " skipped")
  conclude around r report

/-- Prints the outline of the scopes, and the faults of their configurations. -/
def printScopes (symbols : String) : Job Verdict := do
  let t ← loadSnapshot symbols
  let (graph, faults) := ScopeGraph.build t
  Job.note (ScopeGraph.buildNotes t)
  Job.ofFault graph.validate
  Job.printAll (graph.outline.map OutlineLine.text)
  Job.printAll (faults.map faultLine)
  pure (.ofClean faults.isEmpty)

def perform (around : Surroundings) (settings : Settings) : Command → Job Verdict
  | generate request => generateUnits around settings request
  | scopes symbols => printScopes symbols
  | check symbols report => checkSnapshot around settings symbols report

def run (around : Surroundings) (settings : Settings) (disk : Disk) (c : Command) :
    Except Failure Verdict × Desk :=
  (c.perform around settings).run { disk }

end Command

namespace Invocation

/-- The level of notes that the flags ask for. -/
def level (i : Invocation) : Level := Level.ofFlags i.verbose i.quiet

def loadSettings (i : Invocation) (disk : Disk) (environment : List (String × String)) :
    Except Failure Settings :=
  (Settings.load disk i.config environment).mapError fun fault =>
    (Failure.ofFault fault).within "Configuration is malformed"

end Invocation

end Bindery
