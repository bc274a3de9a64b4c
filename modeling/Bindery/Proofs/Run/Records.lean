import Bindery.Proofs.Integration.Resolving
import Bindery.Proofs.Run.Irrelevance

/-! # What the records of a run go back to

A diagnostic stands for a fault that was met at a declaration of the table, and a duplicate goes
back to two bids for one scope. That is an invariant of every step of a built-in generator, whether
the run collects diagnostics or stops at the first ones.
-/

namespace Bindery

open Integration Run

namespace Context

variable {ctx : Context} {d : Declaration} {fault : Fault}

/-- The fault is met where something is read off the declaration. -/
inductive Raises (ctx : Context) (d : Declaration) : Fault → Prop where
  | configuration {a : Annotation} {fault : Fault}
      (hCarried : d.annotationOf? WellKnown.scopeConfiguration = some a)
      (hRead : ScopeConfiguration.read d a = .error fault) : Raises ctx d fault
  | contribution {c : Creation} {fault : Fault} (hMarked : d ∈ ctx.table.annotated c.marker)
      (hScope : Resolution.scopeOf ctx.table d [c.marker] = .error fault) : Raises ctx d fault
  | shape {c : Creation} {scope : ClassName} {faults : List Fault} {fault : Fault}
      (hRefused : c.build ctx ⟨d, scope⟩ = .error faults) (hMem : fault ∈ faults) :
      Raises ctx d fault
  | component {fault : Fault} (hOwn : ownFault? ctx.table d = some fault) : Raises ctx d fault
  | list {fault : Fault} (hListed : listFault? d = some fault) : Raises ctx d fault

theorem names_of_ownFault? {t : SymbolTable} (h : ownFault? t d = some fault) :
    fault.Names d := by
  unfold ownFault? at h
  split at h
  · split at h
    · nomatch h
    · next other hScope =>
      obtain rfl := Option.some.inj h
      exact Resolution.names_of_scopeOf hScope
  · nomatch h

theorem names_of_listFault? (h : listFault? d = some fault) : fault.Names d := by
  obtain ⟨a, _, hFault⟩ := Option.bind_eq_some_iff.mp h
  split at hFault
  · nomatch hFault
  · next other hListed =>
    obtain rfl := Option.some.inj hFault
    exact names_of_listedScopes hListed

theorem Raises.names (h : ctx.Raises d fault) : fault.Names d := by
  cases h with
  | configuration _ hRead => exact (ScopeConfiguration.invalidates_of_read hRead).names
  | contribution _ hScope => exact Resolution.names_of_scopeOf hScope
  | shape hRefused hMem => exact names_of_build hRefused fault hMem
  | component hOwn => exact names_of_ownFault? hOwn
  | list hListed => exact names_of_listFault? hListed

/-- A fault that some declaration of the table raises. -/
def Met (ctx : Context) (fault : Fault) : Prop :=
  ∃ d ∈ ctx.table.declarations, ctx.Raises d fault

theorem Met.not_fatal (h : ctx.Met fault) : fault.isFatal = false := by
  obtain ⟨d, _, hRaises⟩ := h
  exact hRaises.names.not_fatal

theorem met_of_mem_faults (hMem : fault ∈ faults ctx.table) : ctx.Met fault := by
  rw [faults_eq] at hMem
  obtain ⟨d, hDeclared, hFault⟩ := List.mem_flatMap.mp hMem
  rcases List.mem_append.mp hFault with hOwn | hListed
  · exact ⟨d, hDeclared, .component (Option.mem_toList.mp hOwn)⟩
  · exact ⟨d, hDeclared, .list (Option.mem_toList.mp hListed)⟩

theorem met_of_mem_build (hMem : fault ∈ (ScopeGraph.build ctx.table).2) : ctx.Met fault := by
  obtain ⟨⟨d, result⟩, hReading, hFault⟩ := List.mem_filterMap.mp hMem
  obtain ⟨hDeclared, a, hCarried, hRead⟩ := ScopeGraph.mem_readings.mp hReading
  cases result with
  | ok c => nomatch hFault
  | error other =>
    obtain rfl : other = fault := Option.some.inj hFault
    exact ⟨d, hDeclared, .configuration hCarried hRead⟩

/-- The first bid wins the scope for which the second one comes too late. -/
structure Beats (ctx : Context) (f : Feature) (w b : Bid) : Prop where
  placed : b.Placed ctx.table
  wins : w.Wins ctx.table ctx.graph f
  scope : w.scope = b.scope
  before : w.Before b

end Context

/-- All that the account lists can be traced back to declarations of the table. -/
structure Account.Traced (ctx : Context) (a : Account) : Prop where
  diagnostics : ∀ x ∈ a.diagnostics, ∃ id fault, ctx.Met fault ∧ x = ctx.diagnosticOf id fault
  skips : ∀ k ∈ a.skips, ∀ kept, k.reason = .duplicateScope kept → ∃ f w b, ctx.Beats f w b ∧
    k = Context.duplicateSkip f.integrationId (b, w)
  candidates : a.CacheValid ctx.table

namespace Account.Traced

variable {ctx : Context} {a b : Account}

theorem append (ha : a.Traced ctx) (hb : b.Traced ctx) : (a ++ b).Traced ctx where
  diagnostics := List.forall_mem_append.mpr ⟨ha.diagnostics, hb.diagnostics⟩
  skips := List.forall_mem_append.mpr ⟨ha.skips, hb.skips⟩
  candidates := ha.candidates.append hb.candidates

theorem of_deliveries (l : List Delivery) : Traced ctx { deliveries := l } :=
  ⟨nofun, nofun, nofun⟩

theorem of_faults {faults : List Fault} (hMet : ∀ fault ∈ faults, ctx.Met fault) (id : String) :
    Traced ctx { diagnostics := faults.map (ctx.diagnosticOf id) } := by
  refine ⟨?_, nofun, nofun⟩
  intro x hMem
  obtain ⟨fault, hFault, rfl⟩ := List.mem_map.mp hMem
  exact ⟨id, fault, hMet fault hFault, rfl⟩

end Account.Traced

/-! ## Steps -/

namespace Context

/-- Whatever the step records can be traced back. -/
def Traces {σ α : Type} [Store σ] (ctx : Context) (m : Run σ α) : Prop :=
  ∀ (s s' : Session σ) (a : α), s.CacheValid ctx.table → m.Gives s a s' →
    ∃ acc : Account, s.Grows acc s' ∧ acc.Traced ctx

variable {σ α β : Type} [Store σ] {ctx : Context}

theorem traces_of_plain {m : Run σ α}
    (hPlain : ∀ s s' a, m.Gives s a s' → s.Grows {} s') : ctx.Traces m := by
  intro s s' a _ h
  exact ⟨{}, hPlain s s' a h, .of_deliveries []⟩

theorem traces_pure (a : α) : ctx.Traces (pure a : Run σ α) := by
  apply traces_of_plain
  intro s s' _ h
  obtain ⟨_, rfl⟩ := gives_pure.mp h
  exact .refl s

theorem traces_note (n : Note) : ctx.Traces (note n : Run σ Unit) := by
  apply traces_of_plain
  intro s s' _ h
  exact ((yields_note s n).of_gives h).2

/-- What comes behind a step may rely on what the step gives. -/
theorem Traces.bind {m : Run σ α} {f : α → Run σ β} (h : ctx.Traces m)
    (hThen : ∀ a s s₁, m.Gives s a s₁ → ctx.Traces (f a)) : ctx.Traces (m >>= f) := by
  intro s s' b hCache hGives
  obtain ⟨a, s₁, hFirst, hSecond⟩ := gives_bind.mp hGives
  obtain ⟨acc, hGrows, hTraced⟩ := h s s₁ a hCache hFirst
  obtain ⟨acc', hGrows', hTraced'⟩ :=
    hThen a s s₁ hFirst s₁ s' b (hCache.of_grows hTraced.candidates hGrows) hSecond
  exact ⟨acc ++ acc', hGrows.trans hGrows', hTraced.append hTraced'⟩

theorem Traces.behind {m : Run σ α} {f : α → Run σ β} (h : ctx.Traces m)
    (hThen : ∀ a, ctx.Traces (f a)) : ctx.Traces (m >>= f) :=
  h.bind fun a _ _ _ => hThen a

theorem Traces.during {m : Run σ α} (h : ctx.Traces m) (stretch : Stretch) :
    ctx.Traces (Run.during stretch m) := by
  intro s s' a hCache hGives
  obtain ⟨s₁, notes, hStep, rfl⟩ := gives_of_during hGives
  obtain ⟨acc, hGrows, hTraced⟩ := h s s₁ a hCache hStep
  exact ⟨acc, hGrows.of_aside s₁.names notes, hTraced⟩

theorem traces_unless_stopped {stopped m : Run σ α} (hStopped : ctx.Traces stopped)
    (h : ctx.Traces m) :
    ctx.Traces (ctx.shouldStop >>= fun stop => if stop = true then stopped else m) := by
  refine Traces.behind ?_ ?_
  · apply traces_of_plain
    intro s s' _ hGives
    obtain ⟨_, rfl⟩ := gives_shouldStop_iff.mp hGives
    exact .refl s
  · intro stop
    cases stop with
    | true => exact hStopped
    | false => exact h

theorem traces_emit (generator : String) (file : Source.File) (origin : Declaration) :
    ctx.Traces (ctx.emit generator file origin : Run σ Unit) := by
  intro s s' _ _ h
  exact ⟨_, grows_of_emit h, .of_deliveries _⟩

theorem traces_diagnoseAll {faults : List Fault} (hMet : ∀ fault ∈ faults, ctx.Met fault)
    (generator : String) : ctx.Traces (ctx.diagnoseAll generator faults : Run σ Unit) := by
  intro s s' _ _ h
  exact ⟨_, grows_of_diagnoseAll h, .of_faults hMet generator⟩

theorem traces_diagnose {fault : Fault} (hMet : ctx.Met fault) (generator : String) :
    ctx.Traces (ctx.diagnose generator fault : Run σ Unit) := by
  intro s s' _ _ h
  obtain ⟨_, hGrows⟩ := (diagnose_yields hMet.not_fatal generator s).of_gives h
  have hAll : ∀ other ∈ [fault], ctx.Met other := by
    simpa using hMet
  exact ⟨_, hGrows, .of_faults hAll generator⟩

/-! ## Turns -/

theorem traces_contributionsAmong (c : Creation) {l : List Declaration}
    (hMarked : ∀ d ∈ l, d ∈ ctx.table.annotated c.marker) :
    ctx.Traces (ctx.contributionsAmong c.id c.marker c.feature l : Run σ _) := by
  induction l with
  | nil => exact traces_pure []
  | cons d rest ih =>
    obtain ⟨hFirst, hRest⟩ := List.forall_mem_cons.mp hMarked
    rw [contributionsAmong]
    refine traces_unless_stopped (traces_pure []) ?_
    split
    · next fault hScope =>
      have hMet : ctx.Met fault :=
        ⟨d, List.mem_of_mem_filter hFirst, .contribution hFirst hScope⟩
      exact (traces_diagnose hMet c.id).behind fun _ => ih hRest
    · split
      · exact (ih hRest).behind fun _ => traces_pure _
      · exact (traces_note _).behind fun _ => ih hRest

theorem traces_createEach (c : Creation) {l : List Contribution}
    (hDeclared : ∀ x ∈ l, x.declaration ∈ ctx.table.declarations) :
    ctx.Traces (ctx.createEach c.id c.build l : Run σ Unit) := by
  induction l with
  | nil => exact traces_pure ()
  | cons x rest ih =>
    obtain ⟨hFirst, hRest⟩ := List.forall_mem_cons.mp hDeclared
    rw [createEach]
    refine traces_unless_stopped (traces_pure ()) ?_
    split
    · exact (traces_emit c.id _ _).behind fun _ => ih hRest
    · next faults hRefused =>
      have hMet : ∀ fault ∈ faults, ctx.Met fault := by
        intro fault hMem
        exact ⟨x.declaration, hFirst, .shape hRefused hMem⟩
      exact (traces_diagnoseAll hMet c.id).behind fun _ => ih hRest

theorem traces_creation (c : Creation) :
    ctx.Traces (c.generator.generate ctx : Run σ Unit) := by
  refine (traces_contributionsAmong c fun _ hMem => hMem).bind ?_
  intro found s s₁ hFound
  apply traces_createEach
  intro x hMem
  exact List.mem_of_mem_filter (mem_of_contributionsAmong hFound x hMem)

/-- Both records of the scan are traced here: the faults of the candidates, and the bids that are
beaten. -/
theorem traces_integrationTargets (hForest : ctx.graph.validate = .ok ()) (f : Feature) :
    ctx.Traces (ctx.integrationTargets f.integrationId f : Run σ _) := by
  intro s s' targets hCache h
  obtain ⟨winners, beaten, hSelection, hYields⟩ :=
    integrationTargets_yields hForest f.integrationId f hCache
  obtain ⟨_, hGrows⟩ := hYields.of_gives h
  refine ⟨_, hGrows, Account.Traced.append ⟨?_, ?_, resolving_cacheValid ctx _ s⟩
    ⟨nofun, ?_, nofun⟩⟩
  · intro x hMem
    unfold resolving at hMem
    split at hMem
    · nomatch hMem
    · obtain ⟨fault, hFault, rfl⟩ := List.mem_map.mp hMem
      exact ⟨_, fault, met_of_mem_faults hFault, rfl⟩
  · intro k hMem
    unfold resolving at hMem
    split at hMem <;> nomatch hMem
  · intro k hMem kept _
    obtain ⟨⟨b, w⟩, hBeaten, rfl⟩ := List.mem_map.mp hMem
    obtain ⟨hPlaced, hWins, hScope, hBefore⟩ := (hSelection.beaten_iff b w).mp hBeaten
    exact ⟨f, w, b, ⟨hPlaced, hWins, hScope, hBefore⟩, rfl⟩

theorem traces_integrate (generator : String) (rule : Rule) (target : IntegrationTarget) :
    ctx.Traces (ctx.integrate generator rule target : Run σ Unit) := by
  intro s s' _ _ h
  refine ⟨_, grows_of_integrate h, nofun, ?_, nofun⟩
  intro k hMem kept hReason
  obtain ⟨ancestor, _, rfl⟩ := List.mem_map.mp hMem
  nomatch hReason

theorem traces_integrateEach (generator : String) (rule : Rule) (l : List IntegrationTarget) :
    ctx.Traces (ctx.integrateEach generator rule l : Run σ Unit) := by
  induction l with
  | nil => exact traces_pure ()
  | cons target rest ih =>
    rw [integrateEach]
    refine traces_unless_stopped (traces_pure ()) ?_
    exact (traces_integrate generator rule target).behind fun _ => ih

theorem traces_emitChildScopes (l : List ScopeConfiguration) :
    ctx.Traces (ViewModel.emitChildScopes ctx l : Run σ Unit) := by
  induction l with
  | nil => exact traces_pure ()
  | cons c rest ih =>
    rw [ViewModel.emitChildScopes]
    refine traces_unless_stopped (traces_pure ()) (Traces.behind ?_ fun _ => ih)
    intro s s' _ _ h
    exact ⟨_, ViewModel.grows_of_emitChildScope h, .of_deliveries _⟩

theorem traces_of_mem_builtIn (hForest : ctx.graph.validate = .ok ()) {g : Generator}
    (hMem : g ∈ Pipeline.builtIn) : ctx.Traces (g.generate ctx : Run σ Unit) := by
  obtain rfl | ⟨c, rfl⟩ | ⟨f, rfl⟩ := cases_of_mem_builtIn hMem
  · exact traces_emitChildScopes ctx.graph.scopes
  · exact traces_creation c
  · exact (traces_integrationTargets hForest f).behind (traces_integrateEach _ _)

theorem traces_runGenerators (hForest : ctx.graph.validate = .ok ()) {l : List Generator}
    (hBuiltIn : ∀ g ∈ l, g ∈ Pipeline.builtIn) :
    ctx.Traces (runGenerators ctx l : Run σ Unit) := by
  induction l with
  | nil => exact traces_pure ()
  | cons g rest ih =>
    obtain ⟨hFirst, hRest⟩ := List.forall_mem_cons.mp hBuiltIn
    rw [runGenerators]
    refine traces_unless_stopped (traces_note _) ?_
    exact ((traces_of_mem_builtIn hForest hFirst).during _).behind fun _ => ih hRest

end Context

/-! ## Runs -/

namespace Pipeline

variable {σ : Type} [Store σ] {settings : Settings} {extra : List Generator} {t : SymbolTable}
  {store : σ} {report : Report}

/-- The report of a run that succeeds can be traced back as a whole. -/
theorem traced_of_run (hExtra : ∀ g ∈ extra, g ∈ builtIn)
    (hRun : ((build settings extra).run t store).result = .ok report) :
    ∃ a : Account, a.journal = report.journal ∧
      a.Traced ((build settings extra).context t) := by
  obtain ⟨s₀, s₁, hOpening, hTurns, hJournal⟩ := exists_turns_of_run hRun
  have hCache := cacheValid_of_opening rfl hOpening
  have hBuiltIn : ∀ g ∈ (build settings extra).generators, g ∈ builtIn := by
    intro g hMem
    rcases mem_of_mem_generators hMem with hOwn | hAgain
    · exact hOwn
    · exact hExtra g hAgain
  have hTraces : ((build settings extra).context t).Traces
      (turns (build settings extra) ((build settings extra).context t) : Run σ Unit) :=
    Context.traces_unless_stopped (Context.traces_pure ())
      (Context.traces_runGenerators (forest_of_run hRun) hBuiltIn)
  obtain ⟨a, hGrows, hTraced⟩ := hTraces s₀ s₁ () hCache hTurns
  have hTotal := (grows_of_opening hOpening).trans hGrows
  refine ⟨_, (hTotal.journal_eq rfl).symm.trans hJournal, .append ?_ hTraced⟩
  exact .of_faults (fun _ => Context.met_of_mem_build) scopeGraphId

end Pipeline

end Bindery
