import Bindery.Proofs.Integration.Sharing
import Bindery.Proofs.Run.Faults
import Bindery.Proofs.Symbols.Irrelevance
import Bindery.Proofs.Symbols.Loaded
import Bindery.Proofs.Symbols.Snapshots

/-! # Runs over one more declaration

A run over a loaded table is the same with a declaration that nothing leads to: every step of a
built-in generator is the same step in both contexts. Faults are turned into diagnostics by the text
of a name; since names of loaded declarations are found by their texts, no fault is taken for one of
the other declaration.
-/

namespace Bindery

open Run

variable {σ : Type}

/-- A step is followed by what comes of its results only. -/
theorem Run.bind_congr_of_gives {α β : Type} {m : Run σ α} {f g : α → Run σ β}
    (h : ∀ s a s', m.Gives s a s' → f a = g a) : m >>= f = m >>= g := by
  funext s
  change (m >>= f).outcome s = (m >>= g).outcome s
  rw [outcome_bind, outcome_bind]
  cases hFirst : m.outcome s with
  | mk result s' =>
    cases result with
    | error fault => rfl
    | ok a => exact congrArg (outcome · s') (h s a s' hFirst)

namespace Context

/-- The context over the table with one more declaration. -/
def putting (ctx : Context) (e : Declaration) : Context := { ctx with table := ctx.table.put e }

/-- Nothing that a run looks at leads to the declaration. -/
structure Overlooks (ctx : Context) (e : Declaration) : Prop where
  irrelevant : ctx.table.Irrelevant e
  graph : ctx.graph = (ScopeGraph.build ctx.table).1
  read : ∀ d ∈ ctx.table.declarations, d.name.Read

variable {ctx : Context} {e : Declaration}

section Putting

variable (ctx e)

@[simp] theorem table_putting : (ctx.putting e).table = ctx.table.put e := rfl

@[simp] theorem graph_putting : (ctx.putting e).graph = ctx.graph := rfl

@[simp] theorem shouldStop_putting : ((ctx.putting e).shouldStop : Run σ Bool) = ctx.shouldStop :=
  rfl

@[simp] theorem emit_putting [Store σ] (id : String) (file : Source.File) (origin : Declaration) :
    ((ctx.putting e).emit id file origin : Run σ Unit) = ctx.emit id file origin := rfl

@[simp] theorem targetsAmong_putting (id : String) (f : Feature)
    (kept : OrderedMap ClassName ClassName) (l : List Candidate) :
    ((ctx.putting e).targetsAmong id f kept l : Run σ _) = ctx.targetsAmong id f kept l := by
  induction l generalizing kept with
  | nil => rfl
  | cons c rest ih =>
    simp only [targetsAmong, ih]
    rfl

@[simp] theorem integrateEach_putting [Store σ] (id : String) (rule : Integration.Rule)
    (l : List IntegrationTarget) :
    ((ctx.putting e).integrateEach id rule l : Run σ Unit) = ctx.integrateEach id rule l := by
  induction l with
  | nil => rfl
  | cons target rest ih =>
    simp only [integrateEach, ih]
    rfl

end Putting

/-! ## Diagnostics -/

/-- The source file of a fault is that of the declaration that the fault names. -/
theorem sourceFileOf_of_names {d : Declaration} {fault : Fault}
    (hDeclared : d ∈ ctx.table.declarations) (hRead : d.name.Read) (hNames : fault.Names d) :
    ctx.sourceFileOf fault.declaration? = d.sourceFile := by
  have hFind : ctx.table.find? d.name = some d :=
    SymbolTable.find?_eq_some_iff.mpr ⟨hDeclared, rfl⟩
  have hText : fault.declaration? = some d.name.canonical := hNames
  rw [sourceFileOf, hText, Option.bind_some, hRead.parse_canonical]
  change (ctx.table.find? d.name).bind (·.sourceFile) = _
  rw [hFind, Option.bind_some]

theorem diagnose_putting (h : ctx.Overlooks e) {d : Declaration} {fault : Fault}
    (hDeclared : d ∈ ctx.table.declarations) (hNames : fault.Names d) (id : String) :
    ((ctx.putting e).diagnose id fault : Run σ Unit) = ctx.diagnose id fault := by
  have hRead := h.read d hDeclared
  have hPut : d ∈ (ctx.putting e).table.declarations :=
    h.irrelevant.mem_declarations_put hDeclared
  rw [diagnose, diagnose, sourceFileOf_of_names hPut hRead hNames,
    sourceFileOf_of_names hDeclared hRead hNames]

theorem diagnoseAll_putting (h : ctx.Overlooks e) {faults : List Fault}
    (hNames : ∀ fault ∈ faults, ∃ d ∈ ctx.table.declarations, fault.Names d) (id : String) :
    ((ctx.putting e).diagnoseAll id faults : Run σ Unit) = ctx.diagnoseAll id faults := by
  induction faults with
  | nil => rfl
  | cons fault rest ih =>
    obtain ⟨⟨d, hDeclared, hFirst⟩, hRest⟩ := List.forall_mem_cons.mp hNames
    rw [diagnoseAll, diagnoseAll, diagnose_putting h hDeclared hFirst, ih hRest]

/-! ## Creation -/

theorem contributionsAmong_putting (h : ctx.Overlooks e) (id : String) (marker : ClassName)
    (f : Feature) {l : List Declaration} (hDeclared : ∀ d ∈ l, d ∈ ctx.table.declarations) :
    ((ctx.putting e).contributionsAmong id marker f l : Run σ _) =
      ctx.contributionsAmong id marker f l := by
  induction l with
  | nil => rfl
  | cons d rest ih =>
    obtain ⟨hFirst, hRest⟩ := List.forall_mem_cons.mp hDeclared
    simp only [contributionsAmong, shouldStop_putting, table_putting, graph_putting,
      Resolution.scopeOf_put h.irrelevant hFirst, ih hRest]
    cases hScope : Resolution.scopeOf ctx.table d [marker] with
    | ok scope => rfl
    | error fault =>
      simp only [diagnose_putting h hFirst (Resolution.names_of_scopeOf hScope)]

/-- Contributions are made by declarations that were looked at. -/
theorem mem_of_contributionsAmong {id : String} {marker : ClassName} {f : Feature}
    {l : List Declaration} {s s' : Session σ} {found : List Contribution}
    (h : (ctx.contributionsAmong id marker f l).Gives s found s') :
    ∀ x ∈ found, x.declaration ∈ l := by
  induction l generalizing s s' found with
  | nil =>
    obtain ⟨rfl, _⟩ := gives_pure.mp h
    nofun
  | cons d rest ih =>
    have hBehind {s₁ s₂ : Session σ} {others : List Contribution}
        (hRest : (ctx.contributionsAmong id marker f rest).Gives s₁ others s₂) :
        ∀ x ∈ others, x.declaration ∈ d :: rest :=
      fun x hMem => List.mem_cons_of_mem _ (ih hRest x hMem)
    obtain ⟨stop, s₁, _, h⟩ := gives_bind.mp h
    split at h
    · obtain ⟨rfl, _⟩ := gives_pure.mp h
      nofun
    · split at h
      · obtain ⟨_, s₂, _, hRest⟩ := gives_bind.mp h
        exact hBehind hRest
      · split at h
        · obtain ⟨others, s₂, hRest, hFound⟩ := gives_bind.mp h
          obtain ⟨rfl, _⟩ := gives_pure.mp hFound
          exact List.forall_mem_cons.mpr ⟨List.mem_cons_self, hBehind hRest⟩
        · obtain ⟨_, s₂, _, hRest⟩ := gives_bind.mp h
          exact hBehind hRest

/-- A file depends on the table by what its declaration inherits only. -/
theorem build_putting (h : ctx.Overlooks e) (c : Creation) {x : Contribution}
    (hDeclared : x.declaration ∈ ctx.table.declarations) :
    c.build (ctx.putting e) x = c.build ctx x := by
  have hInherits := h.irrelevant.isSubtype_put hDeclared
  cases c with
  | injection =>
    simp only [Creation.build, Appcomponent.injectionFile, table_putting, hInherits]
    rfl
  | fragment =>
    simp only [Creation.build, Fragment.creationFile, table_putting, hInherits]
    rfl
  | viewModel =>
    simp only [Creation.build, ViewModel.creationFile, table_putting, hInherits]
    rfl
  | wrapper => rfl
  | worker =>
    simp only [Creation.build, Work.creationFile, Work.violations, Work.shapeProblems,
      table_putting, hInherits]
    rfl

theorem createEach_putting [Store σ] (h : ctx.Overlooks e) (c : Creation) {l : List Contribution}
    (hDeclared : ∀ x ∈ l, x.declaration ∈ ctx.table.declarations) :
    ((ctx.putting e).createEach c.id c.build l : Run σ Unit) = ctx.createEach c.id c.build l := by
  induction l with
  | nil => rfl
  | cons x rest ih =>
    obtain ⟨hFirst, hRest⟩ := List.forall_mem_cons.mp hDeclared
    simp only [createEach, shouldStop_putting, emit_putting, build_putting h c hFirst, ih hRest]
    cases hBuild : c.build ctx x with
    | ok file => rfl
    | error faults =>
      have hNames : ∀ fault ∈ faults, ∃ d ∈ ctx.table.declarations, fault.Names d :=
        fun fault hMem => ⟨_, hFirst, names_of_build hBuild fault hMem⟩
      simp only [diagnoseAll_putting h hNames]

theorem creation_putting [Store σ] (h : ctx.Overlooks e) (c : Creation) :
    (c.generator.generate (ctx.putting e) : Run σ Unit) = c.generator.generate ctx := by
  have hMarked : ∀ d ∈ ctx.table.annotated c.marker, d ∈ ctx.table.declarations :=
    fun d hMem => List.mem_of_mem_filter hMem
  have hFound : ((ctx.putting e).contributions c.id c.marker c.feature : Run σ _) =
      ctx.contributions c.id c.marker c.feature := by
    rw [contributions, contributions, table_putting, h.irrelevant.annotated_put]
    exact contributionsAmong_putting h c.id c.marker c.feature hMarked
  change (ctx.putting e).contributions c.id c.marker c.feature >>= _ = _ >>= _
  rw [hFound]
  refine bind_congr_of_gives fun s found s' hGives => ?_
  exact createEach_putting h c fun x hMem => hMarked _ (mem_of_contributionsAmong hGives x hMem)

/-! ## Integration and child scopes -/

theorem integration_putting [Store σ] (h : ctx.Overlooks e) (f : Feature) :
    (f.integration.generate (ctx.putting e) : Run σ Unit) = f.integration.generate ctx := by
  have hNames : ∀ fault ∈ Integration.faults ctx.table,
      ∃ d ∈ ctx.table.declarations, fault.Names d :=
    fun fault hMem => Integration.names_of_mem_faults hMem
  have hCandidates : ((ctx.putting e).integrationCandidates f.integrationId : Run σ _) =
      ctx.integrationCandidates f.integrationId := by
    simp only [integrationCandidates, table_putting, Integration.candidates_put h.irrelevant,
      Integration.faults_put h.irrelevant, diagnoseAll_putting h hNames]
  change ((ctx.putting e).integrationTargets f.integrationId f : Run σ _) >>= _ = _ >>= _
  simp only [integrationTargets, hCandidates, targetsAmong_putting, integrateEach_putting]

/-- The declaration of a configured scope is found among the others. -/
theorem emitChildScope_putting [Store σ] (h : ctx.Overlooks e) {c : ScopeConfiguration}
    (hConfigured : c ∈ ctx.graph.scopes) :
    (ViewModel.emitChildScope (ctx.putting e) c : Run σ Unit) = ViewModel.emitChildScope ctx c := by
  rw [h.graph] at hConfigured
  obtain ⟨d, hFind, _⟩ := (ScopeGraph.configures_of_mem_scopes hConfigured).declared
  have hOther : e.name ≠ c.scope := by
    intro hSame
    rw [← hSame, h.irrelevant.undeclared] at hFind
    cases hFind
  simp only [ViewModel.emitChildScope, table_putting, SymbolTable.find?_put, if_neg hOther]
  rfl

theorem emitChildScopes_putting [Store σ] (h : ctx.Overlooks e) {l : List ScopeConfiguration}
    (hConfigured : ∀ c ∈ l, c ∈ ctx.graph.scopes) :
    (ViewModel.emitChildScopes (ctx.putting e) l : Run σ Unit) =
      ViewModel.emitChildScopes ctx l := by
  induction l with
  | nil => rfl
  | cons c rest ih =>
    obtain ⟨hFirst, hRest⟩ := List.forall_mem_cons.mp hConfigured
    simp only [ViewModel.emitChildScopes, shouldStop_putting, emitChildScope_putting h hFirst,
      ih hRest]

/-! ## Whole runs -/

theorem generate_putting [Store σ] (h : ctx.Overlooks e) {g : Generator}
    (hMem : g ∈ Pipeline.builtIn) :
    (g.generate (ctx.putting e) : Run σ Unit) = g.generate ctx := by
  obtain rfl | ⟨c, rfl⟩ | ⟨f, rfl⟩ := cases_of_mem_builtIn hMem
  · exact emitChildScopes_putting h fun c hMem => hMem
  · exact creation_putting h c
  · exact integration_putting h f

theorem runGenerators_putting [Store σ] (h : ctx.Overlooks e) {l : List Generator}
    (hBuiltIn : ∀ g ∈ l, g ∈ Pipeline.builtIn) :
    (runGenerators (ctx.putting e) l : Run σ Unit) = runGenerators ctx l := by
  induction l with
  | nil => rfl
  | cons g rest ih =>
    obtain ⟨hFirst, hRest⟩ := List.forall_mem_cons.mp hBuiltIn
    simp only [runGenerators, shouldStop_putting, generate_putting h hFirst, ih hRest]

end Context

namespace Pipeline

open Context

theorem steps_putting [Store σ] {ctx : Context} {e : Declaration} (h : ctx.Overlooks e)
    (settings : Settings) {faults : List Fault}
    (hNames : ∀ fault ∈ faults, ∃ d ∈ ctx.table.declarations, fault.Names d) :
    ((build settings []).steps (ctx.putting e) faults : Run σ Unit) =
      (build settings []).steps ctx faults := by
  have hBuiltIn : ∀ g ∈ (build settings []).generators, g ∈ builtIn :=
    fun g hMem => mem_builtIn_of_mem_generators hMem
  simp only [steps, diagnoseAll_putting h hNames, shouldStop_putting,
    runGenerators_putting h hBuiltIn]

/-- A declaration that nothing leads to changes neither the result of a run nor what is stored. -/
theorem run_put [Store σ] {t : SymbolTable} {e : Declaration} (h : t.Irrelevant e)
    (hRead : ∀ d ∈ t.declarations, d.name.Read) (settings : Settings) (store : σ) :
    ((build settings []).run (t.put e) store).result = ((build settings []).run t store).result ∧
    ((build settings []).run (t.put e) store).store = ((build settings []).run t store).store := by
  have hOverlooks : ((build settings []).context t).Overlooks e := ⟨h, rfl, hRead⟩
  have hContext : (build settings []).context (t.put e) =
      ((build settings []).context t).putting e := by
    rw [context, ScopeGraph.build_put h]
    rfl
  have hBegin : begin (t.put e) store = begin t store := by
    rw [begin, ScopeGraph.buildNotes_put h, begin]
  have hSteps := steps_putting (σ := σ) hOverlooks settings
    fun fault hMem => ScopeGraph.names_of_mem_build (t := t) hMem
  cases hForest : (ScopeGraph.build t).1.validate with
  | error fault =>
    have hForest' : (ScopeGraph.build (t.put e)).1.validate = .error fault := by
      rw [ScopeGraph.build_put h, hForest]
    obtain ⟨hResult, hStore⟩ := run_of_cycle (p := build settings []) store hForest
    obtain ⟨hResult', hStore'⟩ := run_of_cycle (p := build settings []) store hForest'
    exact ⟨hResult'.trans hResult.symm, hStore'.trans hStore.symm⟩
  | ok _ =>
    have hForest' : ((build settings []).context (t.put e)).graph.validate = .ok () := by
      rw [hContext]
      exact hForest
    rw [run_of_forest store hForest', run_of_forest store hForest, hContext,
      ScopeGraph.build_put h, hBegin, hSteps]
    exact ⟨rfl, rfl⟩

/-- A loaded table with a declaration that nothing leads to gives the same report or the same fault,
and stores the same, whatever scopes and parents bear the name of the declaration. -/
theorem run_insert_irrelevant [Store σ] (settings : Settings) (store : σ) (t : SymbolTable)
    (e : Declaration) (hLoaded : Snapshot.Loaded t) (h : t.Irrelevant e) :
    ∃ u, t.insert e = .ok u ∧
      ((build settings []).run u store).result = ((build settings []).run t store).result ∧
      ((build settings []).run u store).store = ((build settings []).run t store).store := by
  refine ⟨t.put e, ?_, run_put h hLoaded.read settings store⟩
  rw [SymbolTable.insert, h.undeclared]
  rfl

end Pipeline

/-! ## A scope that is not declared -/

namespace Sample

theorem isWritable_scope {name : ClassName} {parent : Option ClassName} (hName : name.Read)
    (hParent : ∀ p ∈ parent, p.Read) (features : FeatureSet) :
    (scope name features parent).IsWritable where
  name := hName
  supertypes := by simp [scope]
  annotations := by
    have hClass : WellKnown.scopeConfiguration.Read :=
      ⟨WellKnown.scopeConfiguration.canonical, by decide +kernel⟩
    refine List.forall_mem_singleton.mpr ⟨hClass, List.forall_mem_append.mpr ⟨?_, ?_⟩⟩
    · rintro argument hMem
      obtain ⟨f, _, rfl⟩ := List.mem_map.mp hMem
      exact .bool _
    · rintro argument hMem
      obtain ⟨p, hGiven, rfl⟩ := List.mem_map.mp hMem
      exact .classRef (hParent p (Option.mem_toList.mp hGiven))
  constructors := by simp [scope]

theorem isWritable_component {name scope : ClassName} (hName : name.Read) (hScope : scope.Read) :
    (component name scope).IsWritable where
  name := hName
  supertypes := by simp [component]
  annotations := by
    have hClass : WellKnown.mergeComponent.Read :=
      ⟨WellKnown.mergeComponent.canonical, by decide +kernel⟩
    have hArgument : (scopeArgument scope).IsWritable := .classRef hScope
    exact List.forall_mem_singleton.mpr ⟨hClass, List.forall_mem_singleton.mpr hArgument⟩
  constructors := by simp [component]

/-- A scope below one that is not declared, with a component for each of the two. -/
def orphaned : List Declaration :=
  [scope featureScope .all (some appScope), component mainComponent appScope,
    component testComponent featureScope]

theorem isWritable_orphaned : ∀ d ∈ orphaned, d.IsWritable := by
  have hApp : appScope.Read := ⟨appScope.canonical, by decide +kernel⟩
  have hFeature : featureScope.Read := ⟨featureScope.canonical, by decide +kernel⟩
  have hMain : mainComponent.Read := ⟨mainComponent.canonical, by decide +kernel⟩
  have hTest : testComponent.Read := ⟨testComponent.canonical, by decide +kernel⟩
  have hScope : (scope featureScope .all (some appScope)).IsWritable :=
    isWritable_scope hFeature (by simpa using hApp) .all
  simpa [orphaned] using
    ⟨hScope, isWritable_component hMain hApp, isWritable_component hTest hFeature⟩

end Sample

namespace Pipeline

open Sample

/-- Declaring the parent of the scope, without configuring it, changes nothing. -/
theorem run_insert_orphaned :
    ∃ u, (SymbolTable.ofList orphaned).insert { name := appScope } = .ok u ∧
    ((build {} []).run u MemoryStore.empty).result =
      ((build {} []).run (.ofList orphaned) MemoryStore.empty).result ∧
    ((build {} []).run u MemoryStore.empty).store =
      ((build {} []).run (.ofList orphaned) MemoryStore.empty).store := by
  have hLoaded : Snapshot.Loaded (.ofList orphaned) :=
    .text ((Snapshot.load_write (by decide) isWritable_orphaned).1 (by decide))
  have hIrrelevant : (SymbolTable.ofList orphaned).Irrelevant { name := appScope } :=
    ⟨by decide +kernel, rfl, by decide +kernel, by decide +kernel⟩
  exact run_insert_irrelevant {} MemoryStore.empty _ _ hLoaded hIrrelevant

end Pipeline

end Bindery
