import Bindery.Disk.Path
import Bindery.Run.Journal

/-!
# Reports

What a run tells about itself when it has ended: its journal, and views of it by generator and by
source file.
-/

namespace Bindery

/-- The outcome of a run that did not fail. -/
structure Report where
  journal : Journal
  deriving DecidableEq

/-- Diagnostics of one source file, or of none. Spellings of one path share a group, which shows
the spelling met first. -/
structure DiagnosticGroup where
  file : Option String
  diagnostics : List Diagnostic
  deriving DecidableEq

namespace Report

/-- Whether no declaration was rejected. -/
def isClean (r : Report) : Bool := r.journal.diagnostics.isEmpty

def unitsByGenerator (r : Report) : OrderedMap String Nat :=
  r.journal.emitted.foldl
    (fun counts u => counts.insert u.generator ((counts.get? u.generator).getD 0 + 1)) .empty

/-- Where the diagnostics of a file stand: those without a file in front, the others by the parts
of their paths. -/
def groupKey : Option String → List (List PathPart)
  | none => []
  | some path => [Path.parts path]

def addToGroup (groups : OrderedMap (List (List PathPart)) DiagnosticGroup) (d : Diagnostic) :
    OrderedMap (List (List PathPart)) DiagnosticGroup :=
  let key := groupKey d.sourceFile
  let group := (groups.get? key).getD ⟨d.sourceFile, []⟩
  groups.insert key { group with diagnostics := group.diagnostics ++ [d] }

def diagnosticsByFile (r : Report) : List DiagnosticGroup :=
  (r.journal.diagnostics.foldl addToGroup .empty).values

/-- The report as an object, with the time that the run took. -/
def toJson (r : Report) (elapsedMs : Nat) : Json :=
  .object (r.journal.members ++ [("elapsed_ms", .ofNat elapsedMs)])

/-- The messages of a group behind its file. -/
def groupJson (g : DiagnosticGroup) : Json :=
  .array [.ofOption .string g.file, .ofList (fun d : Diagnostic => .string d.message) g.diagnostics]

/-- The report as an object, with its views instead of the time. -/
def summary (r : Report) : Json :=
  .object (r.journal.members ++ [("clean", .bool r.isClean),
    ("units_by_generator", .object (r.unitsByGenerator.entries.map fun (id, n) => (id, .ofNat n))),
    ("diagnostics_by_file", .ofList groupJson r.diagnosticsByFile)])

end Report

end Bindery
