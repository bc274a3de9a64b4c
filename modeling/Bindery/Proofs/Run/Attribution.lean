import Bindery.Proofs.Run.Records
import Bindery.Proofs.Symbols.Snapshots

/-! # Whom a diagnostic blames

A fault tells its declaration by a text, and the report looks the text up again. In a loaded table
every name reads back from its text, so the text leads to the declaration that raised the fault,
whatever its name looks like.
-/

namespace Bindery

open Context Run

/-- The text of the diagnostic reads as the name of the declaration, which raised what it tells. -/
structure Diagnostic.Blames (ctx : Context) (x : Diagnostic) (d : Declaration) : Prop where
  raised : ∃ fault, ctx.Raises d fault ∧ x.kind = fault.kind ∧ x.message = fault.message ∧
    x.declaration = fault.declaration?
  found : ∃ text name, x.declaration = some text ∧ ClassName.parse text = .ok name ∧
    ctx.table.find? name = some d
  sourceFile : x.sourceFile = d.sourceFile

theorem Context.Raises.blames {ctx : Context} {d : Declaration} {fault : Fault}
    (h : ctx.Raises d fault) (hDeclared : d ∈ ctx.table.declarations) (hRead : d.name.Read)
    (id : String) : (ctx.diagnosticOf id fault).Blames ctx d := by
  have hNames := h.names
  constructor
  · exact ⟨fault, h, rfl, rfl, rfl⟩
  · exact ⟨d.name.canonical, d.name, hNames, hRead.parse_canonical,
      SymbolTable.find?_eq_some_iff.mpr ⟨hDeclared, rfl⟩⟩
  · exact sourceFileOf_of_names hDeclared hRead hNames

namespace Pipeline

/-- Every diagnostic of a run over a loaded table names a declaration. Reading the name back from
its text finds the declaration that raised the fault, and the file of the diagnostic is the file of
this declaration. -/
theorem diagnostics_blame_their_declaration {σ : Type} [Store σ] (settings : Settings)
    (extra : List Generator) (t : SymbolTable) (store : σ) (report : Report)
    (hLoaded : Snapshot.Loaded t) (hExtra : ∀ g ∈ extra, g ∈ builtIn)
    (hRun : ((build settings extra).run t store).result = .ok report) :
    ∀ x ∈ report.journal.diagnostics, ∃ d ∈ t.declarations,
      x.Blames ((build settings extra).context t) d := by
  intro x hMem
  obtain ⟨a, hJournal, hTraced⟩ := traced_of_run hExtra hRun
  rw [← hJournal] at hMem
  obtain ⟨id, fault, ⟨d, hDeclared, hRaises⟩, rfl⟩ := hTraced.diagnostics x hMem
  exact ⟨d, hDeclared, hRaises.blames hDeclared (hLoaded.read d hDeclared) id⟩

end Pipeline

/-! ## Names of all kinds -/

namespace Sample

/-- A declaration with a marker that needs arguments and has none. -/
def bare (name marker : ClassName) (file : String) : Declaration where
  name := name
  annotations := [⟨marker, []⟩]
  sourceFile := some file

theorem isWritable_bare {name marker : ClassName} (hName : name.Read) (hMarker : marker.Read)
    (file : String) : (bare name marker file).IsWritable where
  name := hName
  supertypes := by simp [bare]
  annotations := List.forall_mem_singleton.mpr ⟨hMarker, nofun⟩
  constructors := by simp [bare]

def nestedName : ClassName where
  package := "strays.nested"
  simpleNames := ["Shell", "Core"]

theorem isPackage_empty : isPackage "" = true := by decide

def unpackagedName : ClassName where
  package := ""
  simpleNames := ["Unpackaged"]
  isPackage_package := isPackage_empty

def lowerName : ClassName where
  package := ""
  simpleNames := ["lowered"]
  isPackage_package := isPackage_empty

def accentedName : ClassName where
  package := "straße"
  simpleNames := ["Été"]
  isPackage_package := by decide +kernel
  areSimpleNames_simpleNames := by decide +kernel

/-- Each declaration is at fault in another way. -/
def strays : List Declaration :=
  [bare nestedName WellKnown.scopeConfiguration "nested.kt",
    bare unpackagedName WellKnown.mergeComponent "unpackaged.kt",
    bare lowerName WellKnown.multiScopeIntegration "lower.kt",
    bare accentedName Work.contributesWorker "accented.kt"]

theorem isWritable_strays : ∀ d ∈ strays, d.IsWritable := by
  have hNested : nestedName.Read := ⟨"strays.nested.Shell.Core", by decide +kernel⟩
  have hUnpackaged : unpackagedName.Read := ⟨"Unpackaged", by decide +kernel⟩
  have hLower : lowerName.Read := ⟨"lowered", by decide +kernel⟩
  have hAccented : accentedName.Read := ⟨"straße.Été", by decide +kernel⟩
  have hScope : WellKnown.scopeConfiguration.Read :=
    ⟨WellKnown.scopeConfiguration.canonical, by decide +kernel⟩
  have hComponent : WellKnown.mergeComponent.Read :=
    ⟨WellKnown.mergeComponent.canonical, by decide +kernel⟩
  have hList : WellKnown.multiScopeIntegration.Read :=
    ⟨WellKnown.multiScopeIntegration.canonical, by decide +kernel⟩
  have hWorker : Work.contributesWorker.Read :=
    ⟨Work.contributesWorker.canonical, by decide +kernel⟩
  simpa [strays] using ⟨isWritable_bare hNested hScope _, isWritable_bare hUnpackaged hComponent _,
    isWritable_bare hLower hList _, isWritable_bare hAccented hWorker _⟩

end Sample

namespace Pipeline

open Sample

theorem diagnostics_blame_their_declaration_strays : ∃ report : Report,
    ((build (.only .work) []).run (.ofList strays) MemoryStore.empty).result = .ok report ∧
      report.journal.diagnostics.length = 4 ∧
      ∀ x ∈ report.journal.diagnostics, ∃ d ∈ (SymbolTable.ofList strays).declarations,
        x.Blames ((build (.only .work) []).context (.ofList strays)) d := by
  have hLoaded : Snapshot.Loaded (.ofList strays) :=
    .text ((Snapshot.load_write (by decide +kernel) isWritable_strays).1 (by decide))
  have hLength : ((build (.only .work) []).run (.ofList strays)
      MemoryStore.empty).result.toOption.map (·.journal.diagnostics.length) = some 4 := by
    decide +kernel
  obtain ⟨report, hReport, hFour⟩ := Option.map_eq_some_iff.mp hLength
  have hRun := toOption_eq_some_iff.mp hReport
  exact ⟨report, hRun, hFour, diagnostics_blame_their_declaration (.only .work) []
    (.ofList strays) MemoryStore.empty report hLoaded nofun hRun⟩

end Pipeline

end Bindery
