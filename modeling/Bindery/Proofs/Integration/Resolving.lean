import Bindery.Proofs.Run.FailFast
import Bindery.Proofs.Run.Sources

/-! # Candidates are resolved once

The generators of the earlier phases leave the candidates of a run alone. So it is the first
generator of the last phase that resolves them, and that reports what cannot be resolved. All
generators behind it find the candidates as they are.
-/

namespace Bindery

open Context Integration Run

/-! ## Unresolvable requests -/

namespace Integration

variable {t : SymbolTable} {d : Declaration}

/-- The fault of a component whose own scope cannot be resolved. -/
def ownFault? (t : SymbolTable) (d : Declaration) : Option Fault :=
  if isComponent d then
    match Resolution.scopeOf t d WellKnown.componentMarkers with
    | .ok _ => none
    | .error fault => some fault
  else none

/-- The fault of a list of scopes that cannot be read. -/
def listFault? (d : Declaration) : Option Fault :=
  (d.annotationOf? WellKnown.multiScopeIntegration).bind fun a =>
    match listedScopes d a with
    | .ok _ => none
    | .error fault => some fault

theorem unresolved_requests (t : SymbolTable) (d : Declaration) :
    unresolved (requests t d) = (ownFault? t d).toList ++ (listFault? d).toList := by
  have hOwn : unresolved (componentRequest t d).toList = (ownFault? t d).toList := by
    unfold componentRequest ownFault?
    rw [← isComponent]
    cases isComponent d with
    | false => rfl
    | true => cases Resolution.scopeOf t d WellKnown.componentMarkers <;> rfl
  have hListed : unresolved (listRequest d).toList = (listFault? d).toList := by
    unfold listRequest listFault?
    cases d.annotationOf? WellKnown.multiScopeIntegration with
    | none => rfl
    | some a =>
      rw [Option.map_some, Option.bind_some]
      cases listedScopes d a <;> rfl
  rw [← hOwn, ← hListed]
  exact List.filterMap_append

theorem faults_eq (t : SymbolTable) : faults t =
    t.declarations.flatMap fun d => (ownFault? t d).toList ++ (listFault? d).toList := by
  rw [faults]
  congr 1
  funext d
  exact unresolved_requests t d

theorem length_faults (t : SymbolTable) : (faults t).length =
    t.declarations.countP (fun d => (ownFault? t d).isSome) +
      t.declarations.countP fun d => (listFault? d).isSome := by
  rw [faults_eq]
  induction t.declarations with
  | nil => rfl
  | cons d rest ih =>
    rw [List.flatMap_cons, List.length_append, List.length_append, ih, List.countP_cons,
      List.countP_cons]
    cases ownFault? t d <;> cases listFault? d <;> simp <;> omega

end Integration

/-! ## Who asks for candidates -/

/-- A turn of the generator leaves the candidates as they are. -/
structure Generator.Discreet (g : Generator) : Prop where
  keeps : ∀ {σ : Type} [Store σ] {ctx : Context} {s s' : Session σ} {u : Unit},
    ctx.failFast = false → (g.generate ctx : Run σ Unit).Gives s u s' →
    s'.candidates = s.candidates

theorem Creation.discreet (c : Creation) : c.generator.Discreet where
  keeps hCollect h := (grows_of_creation hCollect h).candidates

theorem ViewModel.childScopes_discreet : childScopes.Discreet where
  keeps hCollect h := (grows_of_emitChildScopes hCollect h).candidates

/-- A further generator of a run is a built-in one once more, or a guest that asks for candidates in
the phase of integration only. -/
inductive Generator.Joins (g : Generator) : Prop where
  | again (hMem : g ∈ Pipeline.builtIn)
  | guest (hGuest : Pipeline.Guest g) (hDiscreet : g.phase ≠ .integration → g.Discreet)

namespace Generator.Joins

variable {g : Generator}

theorem honest (h : g.Joins) : g.Honest := by
  cases h with
  | again hMem => exact honest_of_mem_builtIn g hMem
  | guest hGuest _ => exact hGuest.honest

theorem discreet (h : g.Joins) (hEarly : g.phase ≠ .integration) : g.Discreet := by
  cases h with
  | again hMem =>
    obtain rfl | ⟨c, rfl⟩ | ⟨f, rfl⟩ := cases_of_mem_builtIn hMem
    · exact ViewModel.childScopes_discreet
    · exact c.discreet
    · exact absurd rfl hEarly
  | guest _ hDiscreet => exact hDiscreet hEarly

theorem id_ne (h : g.Joins) (hEarly : g.phase ≠ .integration) (f : Feature) :
    g.id ≠ f.integrationId := by
  cases h with
  | again hMem =>
    obtain rfl | ⟨c, rfl⟩ | ⟨f', rfl⟩ := cases_of_mem_builtIn hMem
    · exact ((generator_ids_apart .worker f).2.1).symm
    · exact (generator_ids_apart c f).2.2
    · exact absurd rfl hEarly
  | guest hGuest _ => exact hGuest.fresh f.integration f.integration_mem_builtIn

theorem cases_of_late (h : g.Joins) (hLate : g.phase = .integration) :
    (∃ f : Feature, g = f.integration) ∨ Pipeline.Guest g := by
  cases h with
  | again hMem =>
    obtain rfl | ⟨c, rfl⟩ | hIntegrates := cases_of_mem_builtIn hMem
    · exact nomatch hLate
    · exact nomatch hLate
    · exact .inl hIntegrates
  | guest hGuest _ => exact .inr hGuest

end Generator.Joins

section Turns

variable {σ : Type} [Store σ] {ctx : Context} {l : List Generator} {s s' : Session σ} {u : Unit}

theorem candidates_of_runGenerators (hCollect : ctx.failFast = false)
    (hDiscreet : ∀ g ∈ l, g.Discreet) (h : (runGenerators ctx l).Gives s u s') :
    s'.candidates = s.candidates := by
  induction l generalizing s with
  | nil =>
    obtain ⟨_, rfl⟩ := gives_pure.mp h
    rfl
  | cons g rest ih =>
    obtain ⟨hFirst, hRest⟩ := List.forall_mem_cons.mp hDiscreet
    obtain ⟨s₁, notes, hTurn, hLater⟩ := gives_runGenerators_cons hCollect h
    have hKept : s₁.candidates = s.candidates := hFirst.keeps hCollect hTurn
    exact (ih hRest hLater).trans hKept

omit [Store σ] in
theorem Session.cacheValid_of_found {t : SymbolTable}
    (hFound : s.candidates = some (Integration.candidates t)) : s.CacheValid t := by
  intro found hOther
  exact Option.some.inj (hOther.symm.trans hFound)

/-- Candidates that are there stay there. -/
theorem Session.Grows.found {t : SymbolTable} {a : Account} (h : s.Grows a s')
    (hValid : a.CacheValid t) (hFound : s.candidates = some (Integration.candidates t)) :
    s'.candidates = some (Integration.candidates t) := by
  rw [h.candidates, hFound]
  cases hNew : a.candidates with
  | none => rfl
  | some found => rw [hValid found hNew, Option.some_or]

/-- A diagnostic that no built-in generator of the last phase signs. -/
def Diagnostic.Foreign (x : Diagnostic) : Prop := ∀ f : Feature, x.generator ≠ f.integrationId

/-- With the candidates at hand a turn of the last phase reports nothing under a built-in name. -/
theorem grows_of_late_turn {g : Generator} (hCollect : ctx.failFast = false)
    (hForest : ctx.graph.validate = .ok ()) (hJoins : g.Joins) (hLate : g.phase = .integration)
    (hFound : s.candidates = some (candidates ctx.table)) (h : (g.generate ctx).Gives s u s') :
    ∃ a : Account, s.Grows a s' ∧ a.CacheValid ctx.table ∧ ∀ x ∈ a.diagnostics, x.Foreign := by
  have hCache := Session.cacheValid_of_found hFound
  rcases hJoins.cases_of_late hLate with ⟨f, rfl⟩ | hGuest
  · obtain ⟨winners, beaten, _, hGrows⟩ := grows_of_integration hCollect hForest hCache h
    have hResolved : ctx.resolving f.integrationId s = {} := by
      rw [resolving, hFound]
    rw [integrationAccount, hResolved] at hGrows
    exact ⟨_, hGrows, nofun, nofun⟩
  · obtain ⟨a, hGrows, hSigned, hValid⟩ := hGuest.honest.grows hCollect hForest hCache h
    refine ⟨a, hGrows, hValid, ?_⟩
    intro x hMem f
    rw [hSigned.diagnostics x hMem]
    exact hGuest.fresh f.integration f.integration_mem_builtIn

theorem grows_of_late_turns (hCollect : ctx.failFast = false)
    (hForest : ctx.graph.validate = .ok ()) (hLate : ∀ g ∈ l, g.Joins ∧ g.phase = .integration)
    (hFound : s.candidates = some (candidates ctx.table))
    (h : (runGenerators ctx l).Gives s u s') :
    ∃ a : Account, s.Grows a s' ∧ ∀ x ∈ a.diagnostics, x.Foreign := by
  induction l generalizing s with
  | nil =>
    obtain ⟨_, rfl⟩ := gives_pure.mp h
    exact ⟨{}, .refl s, nofun⟩
  | cons g rest ih =>
    obtain ⟨⟨hJoins, hPhase⟩, hRest⟩ := List.forall_mem_cons.mp hLate
    obtain ⟨s₁, notes, hTurn, hLater⟩ := gives_runGenerators_cons hCollect h
    obtain ⟨a, hGrows, hValid, hForeign⟩ :=
      grows_of_late_turn hCollect hForest hJoins hPhase hFound hTurn
    have hNoted := hGrows.of_aside s₁.names notes
    obtain ⟨b, hGrows', hForeign'⟩ := ih hRest (hNoted.found hValid hFound) hLater
    refine ⟨a ++ b, hNoted.trans hGrows', ?_⟩
    exact List.forall_mem_append.mpr ⟨hForeign, hForeign'⟩

/-- The generator that asks first reports all that cannot be resolved. -/
theorem grows_of_first_turn {f : Feature} (hCollect : ctx.failFast = false)
    (hForest : ctx.graph.validate = .ok ()) (hFresh : s.candidates = none)
    (h : (f.integration.generate ctx).Gives s u s') :
    ∃ a : Account, s.Grows a s' ∧
      a.diagnostics = (faults ctx.table).map (ctx.diagnosticOf f.integrationId) ∧
      s'.candidates = some (candidates ctx.table) := by
  have hCache : s.CacheValid ctx.table := by
    intro found hFound
    exact nomatch hFresh.symm.trans hFound
  obtain ⟨winners, beaten, _, hGrows⟩ := grows_of_integration hCollect hForest hCache h
  refine ⟨_, hGrows, ?_, ?_⟩
  · simp [integrationAccount, resolving, hFresh]
  · rw [hGrows.candidates]
    simp [integrationAccount, resolving, hFresh]

end Turns

namespace Pipeline

variable {σ : Type} [Store σ] {settings : Settings} {extra : List Generator} {t : SymbolTable}
  {store : σ} {report : Report} {f : Feature} {g : Generator}

theorem joins_of_mem_generators (hJoins : ∀ g ∈ extra, g.Joins)
    (hMem : g ∈ (build settings extra).generators) : g.Joins := by
  rcases mem_of_mem_generators hMem with hOwn | hExtra
  · exact .again hOwn
  · exact hJoins g hExtra

/-- The last phase begins with a built-in generator if one of them is enabled, since further
generators stand behind. -/
theorem exists_first_integration (extra : List Generator) (hOn : settings.features.has f = true) :
    ∃ first before after,
      (build settings extra).generators = before ++ Feature.integration first :: after ∧
      (∀ g ∈ before, g.phase ≠ .integration) ∧ ∀ g ∈ after, g.phase = .integration := by
  let own := (builtIn.filter (isEnabled settings)).filter fun g => g.phase = .integration
  have hOwn : f.integration ∈ own :=
    List.mem_filter.mpr ⟨List.mem_filter.mpr ⟨f.integration_mem_builtIn, hOn⟩, rfl⟩
  obtain ⟨g, rest, hFirst⟩ := List.exists_cons_of_ne_nil (List.ne_nil_of_mem hOwn)
  obtain ⟨first, rfl⟩ : ∃ first : Feature, g = first.integration := by
    have hMem : g ∈ own := hFirst ▸ List.mem_cons_self
    obtain ⟨hMem, hPhase⟩ := List.mem_filter.mp hMem
    obtain rfl | ⟨c, rfl⟩ | hIntegrates := cases_of_mem_builtIn (List.mem_of_mem_filter hMem)
    · exact nomatch hPhase
    · exact nomatch hPhase
    · exact hIntegrates
  let all := (builtIn ++ extra).filter (isEnabled settings)
  let guests := (extra.filter (isEnabled settings)).filter fun g => g.phase = .integration
  have hLast : (all.filter fun g => g.phase = .integration) =
      first.integration :: (rest ++ guests) := by
    change List.filter _ (List.filter _ (builtIn ++ extra)) = _
    rw [List.filter_append, List.filter_append]
    change own ++ guests = _
    rw [hFirst, List.cons_append]
  refine ⟨first, (all.filter fun g => g.phase = .childScopes) ++
    all.filter fun g => g.phase = .creation, rest ++ guests, ?_, ?_, ?_⟩
  · rw [← hLast, List.append_assoc]
    simp [build, byPhase, Phase.all, all]
  · intro g hMem hPhase
    rcases List.mem_append.mp hMem with hMem | hMem
    · simp [hPhase] at hMem
    · simp [hPhase] at hMem
  · intro g hMem
    have hMem : g ∈ all.filter fun g => g.phase = .integration :=
      hLast ▸ List.mem_cons_of_mem _ hMem
    simpa using (List.mem_filter.mp hMem).2

/-- The turn of a generator begins in a session that the generators before it leave behind. -/
structure TurnBegins (p : Pipeline) (t : SymbolTable) (store : σ) (before : List Generator)
    (g : Generator) (s : Session σ) : Prop where
  reached : (do
    opening (p.context t) (ScopeGraph.build t).2
    runGenerators (p.context t) before).Gives (begin t store) () s
  turn : ∃ s', (g.generate (p.context t)).Gives s () s'

theorem exists_turnBegins (hCollect : settings.failFast = false) (hJoins : ∀ g ∈ extra, g.Joins)
    (hRun : ((build settings extra).run t store).result = .ok report)
    {before after : List Generator}
    (hList : (build settings extra).generators = before ++ g :: after) :
    ∃ s, TurnBegins (build settings extra) t store before g s ∧ s.CacheValid t := by
  obtain ⟨s₀, s₁, hOpening, hTurns, _⟩ := exists_turns_of_run hRun
  rw [gives_turns_iff hCollect, hList] at hTurns
  obtain ⟨s, hBefore, hRest⟩ := gives_runGenerators_append hCollect hTurns
  obtain ⟨s₂, _, hTurn, _⟩ := gives_runGenerators_cons hCollect hRest
  have hHonest : ∀ g ∈ before, g.Honest := by
    intro other hMem
    apply Generator.Joins.honest
    apply joins_of_mem_generators hJoins
    rw [hList]
    exact List.mem_append_left _ hMem
  have hCache := cacheValid_of_opening rfl hOpening
  obtain ⟨a, hGrows, _, hValid⟩ :=
    grows_of_runGenerators hCollect (forest_of_run hRun) hHonest hCache hBefore
  refine ⟨s, ⟨?_, s₂, hTurn⟩, hCache.of_grows hValid hGrows⟩
  exact gives_bind.mpr ⟨(), s₀, hOpening, hBefore⟩

/-- The diagnostics that bear the name of a built-in generator of the last phase. -/
def integrationDiagnostics (report : Report) : List Diagnostic :=
  report.journal.diagnostics.filter fun x => Feature.all.any fun f => x.generator = f.integrationId

theorem integrationDiagnostics_eq (hCollect : settings.failFast = false)
    (hJoins : ∀ g ∈ extra, g.Joins)
    (hRun : ((build settings extra).run t store).result = .ok report)
    {before after : List Generator}
    (hList : (build settings extra).generators = before ++ f.integration :: after)
    (hBefore : ∀ g ∈ before, g.phase ≠ .integration)
    (hAfter : ∀ g ∈ after, g.phase = .integration) :
    integrationDiagnostics report =
      (faults t).map (((build settings extra).context t).diagnosticOf f.integrationId) := by
  have hForest := forest_of_run hRun
  have hAll : ∀ g ∈ before ++ f.integration :: after, g.Joins := by
    rw [← hList]
    intro g
    exact joins_of_mem_generators hJoins
  obtain ⟨hJoinsBefore, hJoinsRest⟩ := List.forall_mem_append.mp hAll
  obtain ⟨s₀, s₄, hOpening, hTurns, hJournal⟩ := exists_turns_of_run hRun
  rw [gives_turns_iff hCollect, hList] at hTurns
  obtain ⟨s₁, hEarly, hRest⟩ := gives_runGenerators_append hCollect hTurns
  obtain ⟨s₂, notes, hTurn, hLate⟩ := gives_runGenerators_cons hCollect hRest
  have hOpened := grows_of_opening hOpening
  have hCache := cacheValid_of_opening rfl hOpening
  obtain ⟨a, hGrowsEarly, hSigned, _⟩ := grows_of_runGenerators hCollect hForest
    (fun g hMem => (hJoinsBefore g hMem).honest) hCache hEarly
  have hFresh : s₁.candidates = none := by
    rw [candidates_of_runGenerators hCollect
      (fun g hMem => (hJoinsBefore g hMem).discreet (hBefore g hMem)) hEarly, hOpened.candidates]
    rfl
  obtain ⟨own, hGrowsOwn, hReported, hFound⟩ :=
    grows_of_first_turn hCollect hForest hFresh hTurn
  have hFound' : ({ s₂ with notes } : Session σ).candidates = some (candidates t) := hFound
  obtain ⟨b, hGrowsLate, hForeign⟩ := grows_of_late_turns hCollect hForest
    (fun g hMem => ⟨hJoinsRest g (List.mem_cons_of_mem _ hMem), hAfter g hMem⟩) hFound' hLate
  have hTotal := ((hOpened.trans hGrowsEarly).trans (hGrowsOwn.of_aside s₂.names notes)).trans
    hGrowsLate
  rw [integrationDiagnostics, ← hJournal, hTotal.journal_eq rfl]
  change List.filter _ (_ ++ a.diagnostics ++ own.diagnostics ++ b.diagnostics) = _
  rw [hReported]
  apply filter_around
  · intro x hMem
    have hForeign : x.Foreign := by
      intro f'
      rcases List.mem_append.mp hMem with hScope | hMem
      · obtain ⟨_, _, rfl⟩ := List.mem_map.mp hScope
        exact scopeGraphId_fresh f'.integration f'.integration_mem_builtIn
      · obtain ⟨g, hOther, hSame⟩ := hSigned.diagnostics x hMem
        rw [hSame]
        exact (hJoinsBefore g hOther).id_ne (hBefore g hOther) f'
    simpa using fun f' _ => hForeign f'
  · intro x hMem
    obtain ⟨_, _, rfl⟩ := List.mem_map.mp hMem
    simpa using ⟨f, Feature.mem_all f, rfl⟩
  · intro x hMem
    simpa using fun f' _ => hForeign x hMem f'

/-- In a run that collects diagnostics and has a built-in generator of the last phase, the first
generator of that phase reports all that cannot be resolved: a component whose scope is not found
and a list of scopes that cannot be read, each of them once. No other built-in generator of the
phase reports anything. Whoever asks for the candidates in a turn gets the same ones. -/
theorem candidates_resolved_once (settings : Settings) (extra : List Generator) (t : SymbolTable)
    (store : σ) (report : Report) (f : Feature) (hCollect : settings.failFast = false)
    (hJoins : ∀ g ∈ extra, g.Joins) (hOn : settings.features.has f = true)
    (hRun : ((build settings extra).run t store).result = .ok report) :
    ∃ first before after,
      (build settings extra).generators = before ++ Feature.integration first :: after ∧
      (∀ g ∈ before, g.phase ≠ .integration) ∧ (∀ g ∈ after, g.phase = .integration) ∧
      integrationDiagnostics report =
        (t.declarations.flatMap fun d => (ownFault? t d).toList ++ (listFault? d).toList).map
          (((build settings extra).context t).diagnosticOf first.integrationId) ∧
      (integrationDiagnostics report).length =
        t.declarations.countP (fun d => (ownFault? t d).isSome) +
          t.declarations.countP (fun d => (listFault? d).isSome) ∧
      ∀ front g rest, (build settings extra).generators = front ++ g :: rest →
        ∃ s, TurnBegins (build settings extra) t store front g s ∧ ∀ id, ∃ s',
          (((build settings extra).context t).integrationCandidates id).Gives s (candidates t) s' := by
  obtain ⟨first, before, after, hList, hBefore, hAfter⟩ := exists_first_integration extra hOn
  have hReported := integrationDiagnostics_eq hCollect hJoins hRun hList hBefore hAfter
  refine ⟨first, before, after, hList, hBefore, hAfter, ?_, ?_, ?_⟩
  · rw [hReported, faults_eq]
  · rw [hReported, List.length_map, length_faults]
  · intro front g rest hSplit
    obtain ⟨s, hBegins, hCache⟩ := exists_turnBegins hCollect hJoins hRun hSplit
    refine ⟨s, hBegins, ?_⟩
    intro id
    have hKept : s.CacheValid ((build settings extra).context t).table := hCache
    obtain ⟨s', hGives, _⟩ := integrationCandidates_yields id hKept
    exact ⟨s', hGives⟩

end Pipeline

namespace Sample

/-- A component without a scope, with a list that says nothing. -/
def doubtful : Declaration where
  name := mainComponent
  annotations := [⟨WellKnown.mergeComponent, []⟩, ⟨WellKnown.multiScopeIntegration, []⟩]

def doubts : SymbolTable := .ofList [scope appScope .all none, doubtful,
  component testComponent appScope]

def twoFeatures : Settings where
  features := (FeatureSet.none.insert .fragment).insert .work

end Sample

namespace Pipeline

open Sample

/-- Two generators run, and the first one reports both faults of one declaration. -/
theorem candidates_resolved_once_doubts : ∃ report : Report,
    ((build twoFeatures []).run doubts MemoryStore.empty).result = .ok report ∧
      (∃ first : Feature, ∀ x ∈ integrationDiagnostics report,
        x.generator = first.integrationId) ∧
      (integrationDiagnostics report).length = 2 := by
  have hOk : ((build twoFeatures []).run doubts MemoryStore.empty).result.isOk = true := by
    decide +kernel
  obtain ⟨report, hRun⟩ := exists_report hOk
  obtain ⟨first, _, _, _, _, _, hReported, hLength, _⟩ :=
    candidates_resolved_once twoFeatures [] doubts MemoryStore.empty report .work rfl nofun rfl hRun
  refine ⟨report, hRun, ⟨first, ?_⟩, ?_⟩
  · rw [hReported]
    intro x hMem
    obtain ⟨_, _, rfl⟩ := List.mem_map.mp hMem
    rfl
  · rw [hLength]
    decide +kernel

end Pipeline

end Bindery
