import Bindery.Proofs.Creation.Files
import Bindery.Proofs.Run.Pipeline
import Bindery.Proofs.Symbols.Table

/-! # Every marked declaration is accounted for

In a successful run a creation generator settles each declaration that carries its marker in just
one of four ways: the scope is not resolved, the scope does not enable the feature, the shape is
rejected, or one file is made. What it records and delivers is made up of these shares and nothing
else. Diagnostics name declarations by text, so which of them belong to a declaration is told by the
shares and not by the text.
-/

namespace Bindery

open Context

namespace Creation

/-- What becomes of a marked declaration. -/
inductive Verdict where
  | unresolved
  | disabled
  | rejected
  | created
  deriving DecidableEq

/-- The share of a marked declaration in what the generator records and delivers. -/
inductive Settles (c : Creation) (ctx : Context) (d : Declaration) :
    List Diagnostic → List Delivery → Verdict → Prop where
  | unresolved {fault : Fault} (hScope : Resolution.scopeOf ctx.table d [c.marker] = .error fault) :
      Settles c ctx d [ctx.diagnosticOf c.id fault] [] .unresolved
  | disabled {scope : ClassName} (hScope : Resolution.scopeOf ctx.table d [c.marker] = .ok scope)
      (hDisabled : ctx.graph.enabled scope c.feature = false) : Settles c ctx d [] [] .disabled
  | rejected {scope : ClassName} {diagnostics : List Diagnostic}
      (hScope : Resolution.scopeOf ctx.table d [c.marker] = .ok scope)
      (hEnabled : ctx.graph.enabled scope c.feature = true) (hShape : ¬ c.Accepts ctx.table d)
      (hSome : diagnostics ≠ []) : Settles c ctx d diagnostics [] .rejected
  | created {scope : ClassName} {file : Source.File}
      (hScope : Resolution.scopeOf ctx.table d [c.marker] = .ok scope)
      (hEnabled : ctx.graph.enabled scope c.feature = true) (hShape : c.Accepts ctx.table d)
      (hMakes : c.Makes d scope file) : Settles c ctx d [] [⟨c.id, file, d⟩] .created

variable {c : Creation} {ctx : Context} {d : Declaration}

/-- The cases exclude one another. -/
theorem Settles.unique {diagnostics diagnostics' : List Diagnostic}
    {deliveries deliveries' : List Delivery} {v w : Verdict}
    (h : c.Settles ctx d diagnostics deliveries v)
    (h' : c.Settles ctx d diagnostics' deliveries' w) : v = w := by
  cases h with
  | unresolved hScope =>
    cases h' with
    | unresolved _ => rfl
    | disabled hScope' _ => cases hScope.symm.trans hScope'
    | rejected hScope' _ _ _ => cases hScope.symm.trans hScope'
    | created hScope' _ _ _ => cases hScope.symm.trans hScope'
  | disabled hScope hDisabled =>
    cases h' with
    | unresolved hScope' => cases hScope.symm.trans hScope'
    | disabled _ _ => rfl
    | rejected hScope' hEnabled _ _ =>
      cases hScope.symm.trans hScope'
      cases hDisabled.symm.trans hEnabled
    | created hScope' hEnabled _ _ =>
      cases hScope.symm.trans hScope'
      cases hDisabled.symm.trans hEnabled
  | rejected hScope hEnabled hShape _ =>
    cases h' with
    | unresolved hScope' => cases hScope.symm.trans hScope'
    | disabled hScope' hDisabled =>
      cases hScope.symm.trans hScope'
      cases hDisabled.symm.trans hEnabled
    | rejected _ _ _ _ => rfl
    | created _ _ hShape' _ => exact absurd hShape' hShape
  | created hScope hEnabled hShape _ =>
    cases h' with
    | unresolved hScope' => cases hScope.symm.trans hScope'
    | disabled hScope' hDisabled =>
      cases hScope.symm.trans hScope'
      cases hDisabled.symm.trans hEnabled
    | rejected _ _ hShape' _ => exact absurd hShape hShape'
    | created _ _ _ _ => rfl

/-- A declaration of an accepted shape in a scope that enables the feature gets its file. -/
theorem Settles.created_of_accepts {diagnostics : List Diagnostic} {deliveries : List Delivery}
    {v : Verdict} {scope : ClassName} (h : c.Settles ctx d diagnostics deliveries v)
    (hScope : Resolution.scopeOf ctx.table d [c.marker] = .ok scope)
    (hEnabled : ctx.graph.enabled scope c.feature = true) (hShape : c.Accepts ctx.table d) :
    ∃ file, deliveries = [⟨c.id, file, d⟩] ∧ c.Makes d scope file := by
  cases h with
  | unresolved hScope' => cases hScope'.symm.trans hScope
  | disabled hScope' hDisabled =>
    cases hScope'.symm.trans hScope
    cases hDisabled.symm.trans hEnabled
  | rejected _ _ hRejected _ => exact absurd hShape hRejected
  | @created scope' file hScope' _ _ hMakes =>
    cases hScope'.symm.trans hScope
    exact ⟨file, rfl, hMakes⟩

/-! ## Shares -/

/-- The faults recorded for a marked declaration. -/
def faultsFor (c : Creation) (ctx : Context) (d : Declaration) : List Fault :=
  (ctx.scopeFault? c.marker d).toList ++
    (ctx.contribution? c.marker c.feature d).toList.flatMap (ctx.refusals c.build)

/-- The files delivered for a marked declaration. -/
def deliveriesFor (c : Creation) (ctx : Context) (d : Declaration) : List Delivery :=
  (ctx.contribution? c.marker c.feature d).toList.flatMap (ctx.deliveriesOf c.id c.build)

theorem exists_settles (c : Creation) (ctx : Context) (d : Declaration) :
    (∀ fault ∈ c.faultsFor ctx d, fault.Names d) ∧ (∀ u ∈ c.deliveriesFor ctx d, u.origin = d) ∧
      ∃ v, c.Settles ctx d ((c.faultsFor ctx d).map (ctx.diagnosticOf c.id))
        (c.deliveriesFor ctx d) v := by
  unfold faultsFor deliveriesFor
  cases hScope : Resolution.scopeOf ctx.table d [c.marker] with
  | error fault =>
    have hFault : ctx.scopeFault? c.marker d = some fault := by simp [scopeFault?, hScope]
    have hDropped : ctx.contribution? c.marker c.feature d = none := by
      simp [contribution?, hScope]
    rw [hFault, hDropped]
    refine ⟨?_, by simp, .unresolved, .unresolved hScope⟩
    simpa using Resolution.names_of_scopeOf hScope
  | ok scope =>
    have hFault : ctx.scopeFault? c.marker d = none := by simp [scopeFault?, hScope]
    rw [hFault]
    cases hEnabled : ctx.graph.enabled scope c.feature with
    | false =>
      have hPassed : ctx.contribution? c.marker c.feature d = none := by
        simp [contribution?, hScope, hEnabled]
      rw [hPassed]
      exact ⟨by simp, by simp, .disabled, .disabled hScope hEnabled⟩
    | true =>
      have hFound : ctx.contribution? c.marker c.feature d = some ⟨d, scope⟩ := by
        simp [contribution?, hScope, hEnabled]
      rw [hFound]
      simp only [Option.toList_none, Option.toList_some, List.nil_append, List.flatMap_singleton]
      unfold refusals deliveriesOf
      by_cases hShape : c.Accepts ctx.table d
      · obtain ⟨file, hBuild, hMakes⟩ := build_of_accepts hShape scope
        rw [hBuild]
        exact ⟨by simp, by simp, .created, .created hScope hEnabled hShape hMakes⟩
      · obtain ⟨faults, hBuild, hSome, hNames⟩ := build_of_not_accepts hShape scope
        rw [hBuild]
        exact ⟨hNames, by simp, .rejected, .rejected hScope hEnabled hShape (by simpa using hSome)⟩

theorem deliveries_creationAccount (c : Creation) (ctx : Context) :
    (ctx.creationAccount c.id c.feature c.marker c.build).deliveries =
      (ctx.table.annotated c.marker).flatMap (c.deliveriesFor ctx) := by
  unfold creationAccount contributed
  rw [List.filterMap_eq_flatMap_toList, List.flatMap_assoc]
  rfl

theorem diagnostics_creationAccount (c : Creation) (ctx : Context) :
    (ctx.creationAccount c.id c.feature c.marker c.build).diagnostics.Perm
      ((ctx.table.annotated c.marker).flatMap fun d =>
        (c.faultsFor ctx d).map (ctx.diagnosticOf c.id)) := by
  unfold creationAccount contributed
  rw [← List.map_append, ← List.map_flatMap]
  refine List.Perm.map _ ?_
  rw [List.filterMap_eq_flatMap_toList, List.filterMap_eq_flatMap_toList, List.flatMap_assoc]
  exact List.flatMap_append_perm _ _ _

/-- The files delivered for one declaration are those of its origin. -/
theorem filter_deliveriesFor (hMarked : d ∈ ctx.table.annotated c.marker) :
    ((ctx.table.annotated c.marker).flatMap (c.deliveriesFor ctx)).filter
      (fun u => decide (u.origin.name = d.name)) = c.deliveriesFor ctx d := by
  have hNames : ((ctx.table.annotated c.marker).map (·.name)).Nodup :=
    (List.filter_sublist.map _).nodup ctx.table.names_nodup
  refine filter_flatMap_of_nodup hNames hMarked fun other _ u hMem => ?_
  rw [(exists_settles c ctx other).2.1 u hMem, decide_eq_true_iff]

end Creation

/-- In a successful run with the feature switched on a creation generator settles each declaration
with its marker in just one way. All that it records and delivers belongs to such a declaration. -/
theorem Pipeline.marked_declarations_settled {σ : Type} [Store σ] (c : Creation)
    (settings : Settings) (extra : List Generator) (t : SymbolTable) (store : σ) (report : Report)
    (hCollect : settings.failFast = false) (hGuests : ∀ g ∈ extra, Guest g)
    (hRun : ((build settings extra).run t store).result = .ok report)
    (hOn : settings.features.has c.feature = true) :
    ∃ (a : Account) (diagnosticsFor : Declaration → List Diagnostic),
      ((build settings extra).run t store).Accounts store a ∧
      (a.diagnostics.filter fun g => g.generator = c.id).Perm
        ((t.annotated c.marker).flatMap diagnosticsFor) ∧
      (∀ d, ∀ g ∈ diagnosticsFor d, g.declaration = some d.name.canonical) ∧
      (∀ u ∈ a.deliveries, u.generator = c.id → u.origin ∈ t.annotated c.marker) ∧
      ∀ d ∈ t.annotated c.marker, ∃! v, c.Settles ((build settings extra).context t) d
        (diagnosticsFor d)
        (a.deliveries.filter fun u =>
          decide (u.origin.name = d.name) && decide (u.generator = c.id)) v := by
  obtain ⟨s₁, s₂, _, hGenerate, hShow⟩ :=
    shows_of_run hCollect hGuests hRun c.generator_mem_builtIn hOn
  obtain ⟨a, hAccounts, hShows⟩ :=
    hShow _ (grows_of_creation hCollect hGenerate) (creationAccount_signedBy _ _ _ _ _)
  let ctx := (build settings extra).context t
  have hDeliveries : a.deliveries.filter (fun u => u.generator = c.id) =
      (t.annotated c.marker).flatMap (c.deliveriesFor ctx) :=
    hShows.deliveries.trans (c.deliveries_creationAccount ctx)
  have hDiagnostics : a.diagnostics.filter (fun g => g.generator = c.id) =
      (ctx.creationAccount c.id c.feature c.marker c.build).diagnostics := hShows.diagnostics
  refine ⟨a, fun d => (c.faultsFor ctx d).map (ctx.diagnosticOf c.id), hAccounts, ?_, ?_, ?_, ?_⟩
  · rw [hDiagnostics]
    exact c.diagnostics_creationAccount ctx
  · intro d g hMem
    obtain ⟨fault, hFault, rfl⟩ := List.mem_map.mp hMem
    exact (c.exists_settles ctx d).1 fault hFault
  · intro u hMem hSigned
    have hOwn : u ∈ a.deliveries.filter (fun u => u.generator = c.id) :=
      List.mem_filter.mpr ⟨hMem, by simpa using hSigned⟩
    rw [hDeliveries] at hOwn
    obtain ⟨d, hMarked, hShare⟩ := List.mem_flatMap.mp hOwn
    rw [(c.exists_settles ctx d).2.1 u hShare]
    exact hMarked
  · intro d hMarked
    have hShare : ((t.annotated c.marker).flatMap (c.deliveriesFor ctx)).filter
        (fun u => decide (u.origin.name = d.name)) = c.deliveriesFor ctx d :=
      Creation.filter_deliveriesFor hMarked
    rw [← List.filter_filter, hDeliveries, hShare]
    obtain ⟨v, hSettles⟩ := (c.exists_settles ctx d).2.2
    exact ⟨v, hSettles, fun w hOther => hOther.unique hSettles⟩

/-! ## One activity -/

namespace Sample

def mainActivity : ClassName where
  package := appScope.package
  simpleNames := ["MainActivity"]
  isPackage_package := appScope.isPackage_package

/-- One scope, and one activity that is injected into it. -/
def activities : SymbolTable :=
  .ofList [scope appScope .all none, contributed mainActivity Appcomponent.injectWith appScope]

end Sample

namespace Pipeline

open Sample

/-- The activity gets one file. -/
theorem marked_declarations_settled_activity :
    ∃ report, ((build (.only .appcomponent) []).run activities MemoryStore.empty).result =
        .ok report ∧
      (Settings.only .appcomponent).features.has Creation.injection.feature = true ∧
      ∃ (a : Account) (file : Source.File), a.journal = report.journal ∧
        Creation.injection.Makes (contributed mainActivity Appcomponent.injectWith appScope)
          appScope file ∧
        (a.deliveries.filter fun u => decide (u.origin.name = mainActivity) &&
          decide (u.generator = Creation.injection.id)).map (·.file) = [file] := by
  have hOk : ((build (.only .appcomponent) []).run activities
      MemoryStore.empty).result.isOk = true := by decide +kernel
  obtain ⟨report, hRun⟩ := exists_report hOk
  obtain ⟨a, diagnosticsFor, hAccounts, _, _, _, hSettled⟩ := marked_declarations_settled
    .injection (.only .appcomponent) [] activities MemoryStore.empty report rfl
    (fun g hMem => nomatch hMem) hRun rfl
  have hFound : activities.find? mainActivity =
      some (contributed mainActivity Appcomponent.injectWith appScope) := rfl
  have hMarked : contributed mainActivity Appcomponent.injectWith appScope ∈
      activities.annotated Appcomponent.injectWith :=
    List.mem_filter.mpr ⟨(SymbolTable.find?_eq_some_iff.mp hFound).1, rfl⟩
  have hScope : Resolution.scopeOf activities
      (contributed mainActivity Appcomponent.injectWith appScope) [Appcomponent.injectWith] =
      .ok appScope := rfl
  have hReport : a.journal = report.journal := by
    rw [← Except.ok.inj (hAccounts.report.symm.trans hRun)]
  obtain ⟨v, hSettles, _⟩ := hSettled _ hMarked
  obtain ⟨file, hShare, hMakes⟩ := hSettles.created_of_accepts hScope rfl trivial
  refine ⟨report, hRun, rfl, a, file, hReport, hMakes, ?_⟩
  exact congrArg (List.map Delivery.file) hShare

end Pipeline

end Bindery
