import Bindery.Proofs.Run.Watched
import Bindery.Proofs.ViewModel.References

/-! # Child scopes come first

The generator of child scopes has the first turn of all. If it gets to its end then every configured
scope that enables view-models has a child scope of its own, and nothing later refers to the child
of any other scope. If it fails, or if the run stops before its turn, then nothing refers to child
scopes at all.
-/

namespace Bindery

open Context Run Source

/-- The file declares an abstract class of this name. -/
def Source.File.DeclaresAbstract (file : File) (name : ClassName) : Prop :=
  ∃ type ∈ file.types, type.kind = .classType ∧ .abstractMember ∈ type.modifiers ∧
    ClassName.ofParts file.package [type.name] = .ok name

namespace Context

/-- Names that are claimed on the way of a step. -/
theorem keys_of_emit {σ : Type} [Store σ] {ctx : Context} {d : Delivery} {s s' : Session σ}
    {u : Unit} (h : (ctx.emit d.generator d.file d.origin : Run σ Unit).Gives s u s') :
    s'.names.keys.Perm (d.names ++ s.names.keys) := by
  simp only [emit, gives_bind, gives_liftDomain, remark, gives_note, gives_modify] at h
  obtain ⟨names, _, ⟨hNamed, rfl⟩, _, s₁, hClaim, _, s₂, hKeep, _, _, rfl, rfl⟩ := h
  obtain ⟨_, notes, rfl⟩ := taken_of_keep hKeep
  have hNames : d.names = names := by
    rw [Delivery.names, hNamed]
    rfl
  rcases claimAll_outcome ⟨d.generator, d.origin.name.canonical⟩ names s with
    ⟨_, claimed, hGives, hPerm⟩ | ⟨_, _, _, hFails, _⟩
  · obtain ⟨_, rfl⟩ := hClaim.unique hGives
    rw [hNames]
    exact hPerm
  · exact absurd hFails hClaim.not_fails

end Context

namespace ViewModel

/-! ## The turn of the child scopes -/

section Turn

variable {σ : Type} [Store σ] {ctx : Context} {c c' : ScopeConfiguration} {child : ClassName}
  {l : List ScopeConfiguration} {s s' : Session σ} {u : Unit}

theorem keys_of_emitChildScope (h : (emitChildScope ctx c).Gives s u s') :
    s'.names.keys.Perm ((childDeliveries ctx c).flatMap Delivery.names ++ s.names.keys) := by
  unfold emitChildScope at h
  unfold childDeliveries
  split at h
  · next hEnables =>
    rw [if_pos hEnables]
    split at h
    · exact absurd h not_gives_throw
    · next origin hOrigin =>
      obtain ⟨child, _, hFirst, h⟩ := gives_bind.mp h
      obtain ⟨hChild, rfl⟩ := gives_liftDomain.mp hFirst
      obtain ⟨_, s₁, hNote, h⟩ := gives_bind.mp h
      obtain rfl := gives_note.mp hNote
      obtain ⟨fileName, _, hSecond, hEmit⟩ := gives_bind.mp h
      obtain ⟨hName, rfl⟩ := gives_liftDomain.mp hSecond
      rw [hOrigin, hChild, hName, List.flatMap_singleton]
      have hKeys := keys_of_emit (d := ⟨childScopesId, _, origin⟩) hEmit
      exact hKeys
  · next hEnables =>
    rw [if_neg hEnables]
    obtain ⟨_, rfl⟩ := gives_pure.mp h
    exact .refl _

theorem keys_of_emitChildScopes (hCollect : ctx.failFast = false)
    (h : (emitChildScopes ctx l).Gives s u s') : s'.names.keys.Perm
      ((l.flatMap (childDeliveries ctx)).flatMap Delivery.names ++ s.names.keys) := by
  induction l generalizing s with
  | nil =>
    obtain ⟨_, rfl⟩ := gives_pure.mp h
    exact .refl _
  | cons c rest ih =>
    rw [emitChildScopes, gives_unless_stopped hCollect] at h
    obtain ⟨_, s₁, hFirst, hRest⟩ := gives_bind.mp h
    have hMiddle := (keys_of_emitChildScope hFirst).append_left
      ((rest.flatMap (childDeliveries ctx)).flatMap Delivery.names)
    rw [List.flatMap_cons, List.flatMap_append]
    refine (ih hRest).trans (hMiddle.trans ?_)
    rw [← List.append_assoc]
    exact List.perm_append_comm.append_right _

/-- Nothing is recorded while child scopes are emitted, so that a run that goes on at the first one
goes on to the last one. -/
theorem gives_collecting (hGoesOn : (ctx.failFast && !s.journal.diagnostics.isEmpty) = false)
    (h : (emitChildScopes ctx l).Gives s u s') :
    (emitChildScopes (ctx.stopping false) l).Gives s u s' := by
  induction l generalizing s with
  | nil => exact h
  | cons c rest ih =>
    obtain ⟨stop, _, hAsk, h⟩ := gives_bind.mp h
    obtain ⟨hStop, rfl⟩ := gives_shouldStop_iff.mp hAsk
    obtain rfl := hStop.symm.trans hGoesOn
    obtain ⟨_, s₁, hFirst, hRest⟩ := gives_bind.mp h
    rw [emitChildScopes, gives_unless_stopped (failFast_stopping ctx false)]
    refine gives_bind.mpr ⟨(), s₁, hFirst, ih ?_ hRest⟩
    rw [(grows_of_emitChildScope hFirst).diagnostics]
    simpa using hGoesOn

theorem grows_of_childScopes (hGoesOn : (ctx.failFast && !s.journal.diagnostics.isEmpty) = false)
    (h : (childScopes.generate ctx).Gives s u s') :
    s.Grows { deliveries := ctx.graph.scopes.flatMap (childDeliveries ctx) } s' :=
  grows_of_emitChildScopes (failFast_stopping ctx false) (gives_collecting hGoesOn h)

omit [Store σ] in
theorem childDeliveries_eq (hSound : ctx.Sound) (hConfigured : c ∈ ctx.graph.scopes)
    (hEnables : c.enables .viewModel = true) (hChild : Naming.childScope c.scope = .ok child) :
    ∃ d, childDeliveries ctx c = [d] ∧ d.generator = childScopesId ∧ d.names = [child] ∧
      d.file.DeclaresAbstract child := by
  obtain ⟨origin, child', fileName, _, hOwnChild, _, hMade⟩ :=
    hSound.exists_childDeliveries hConfigured hEnables
  obtain rfl := Except.ok.inj (hChild.symm.trans hOwnChild)
  obtain ⟨child', hChild', hPackage, hSimple⟩ := Naming.childScope_eq_ok c.scope
  obtain rfl := Except.ok.inj (hChild.symm.trans hChild')
  have hOwn : ClassName.ofParts c.scope.package [child.simpleName] = .ok child := by
    rw [ClassName.simpleName_of_simpleNames hSimple, ← hPackage, ← hSimple]
    exact ClassName.ofParts_eq_ok child.isPackage_package child.areSimpleNames_simpleNames
  refine ⟨_, hMade, rfl, ?_, childScopeType child, List.mem_singleton_self _, rfl,
    List.mem_singleton_self _, hOwn⟩
  have hNamed : ((ctx.file c.scope.package fileName.simpleName).withTypes
      [childScopeType child]).topLevelNames = .ok [child] := by
    change ([childScopeType child].mapM fun t => ClassName.ofParts c.scope.package [t.name]) = _
    rw [List.mapM_cons, childScopeType, hOwn]
    rfl
  rw [Delivery.names, hNamed]
  rfl

/-- Once all child scopes are emitted no two scopes share one. -/
theorem children_distinct (hSound : ctx.Sound)
    (hGoesOn : (ctx.failFast && !s.journal.diagnostics.isEmpty) = false)
    (h : (childScopes.generate ctx).Gives s u s') (hConfigured : c ∈ ctx.graph.scopes)
    (hEnables : c.enables .viewModel = true) (hConfigured' : c' ∈ ctx.graph.scopes)
    (hEnables' : c'.enables .viewModel = true) (hChild : Naming.childScope c.scope = .ok child)
    (hChild' : Naming.childScope c'.scope = .ok child) : c = c' := by
  have hKeys := keys_of_emitChildScopes (failFast_stopping ctx false) (gives_collecting hGoesOn h)
  have hNodup := (List.nodup_append.mp (hKeys.nodup_iff.mp s'.names.keys_nodup)).1
  rw [List.flatMap_assoc] at hNodup
  obtain ⟨d, hMade, _, hNames, _⟩ := childDeliveries_eq hSound hConfigured hEnables hChild
  obtain ⟨d', hMade', _, hNames', _⟩ := childDeliveries_eq hSound hConfigured' hEnables' hChild'
  refine eq_of_mem_flatMap hNodup hConfigured hConfigured' (x := child) ?_ ?_
  · change child ∈ (childDeliveries ctx c).flatMap Delivery.names
    simp [hMade, hNames]
  · change child ∈ (childDeliveries ctx c').flatMap Delivery.names
    simp [hMade', hNames']

end Turn

end ViewModel

/-! ## Runs -/

namespace Pipeline

open ViewModel

variable {σ : Type} [Store σ] {settings : Settings} {t : SymbolTable}

/-- The run gives the generator its turn, and the turn gets to its end. -/
def Passes (p : Pipeline) (g : Generator) (t : SymbolTable) (store : σ) : Prop :=
  (p.context t).graph.validate = .ok () ∧ ∃ before after s₁ s₂ s₃,
    p.generators = before ++ g :: after ∧
    (opening (p.context t) (ScopeGraph.build t).2).Gives (begin t store) () s₁ ∧
    (runGenerators (p.context t) before).Gives s₁ () s₂ ∧
    (p.context t).shouldStop.Gives s₂ false s₂ ∧ (g.generate (p.context t)).Gives s₂ () s₃

/-- Child scopes have the first turn if the feature is enabled. -/
theorem generators_of_viewModel (hOn : settings.features.has .viewModel = true) :
    ∃ rest, (build settings []).generators = childScopes :: rest := by
  have hFirst : (builtIn.filter (isEnabled settings)).filter
      (fun g => g.phase = Phase.childScopes) = [childScopes] := by
    have hOnly : builtIn.filter (fun g => g.phase = Phase.childScopes) = [childScopes] := rfl
    rw [List.filter_comm, hOnly]
    exact List.filter_eq_self.mpr fun g hMem => List.mem_singleton.mp hMem ▸ hOn
  refine ⟨[Phase.creation, Phase.integration].flatMap fun phase =>
    (builtIn.filter (isEnabled settings)).filter fun g => g.phase = phase, ?_⟩
  rw [build, List.append_nil]
  unfold byPhase
  rw [show Phase.all = Phase.childScopes :: [Phase.creation, Phase.integration] from rfl,
    List.flatMap_cons, hFirst]
  rfl

theorem feature_of_dependent : ∀ g ∈ builtIn, g.id ∈ dependents → g.feature = .viewModel := by
  intro g hMem hDependent
  obtain rfl | ⟨c, rfl⟩ | ⟨f, rfl⟩ := cases_of_mem_builtIn hMem
  · exact absurd hDependent (by decide)
  · rcases ViewModel.creation_of_dependent c hDependent with rfl | rfl <;> rfl
  · exact ViewModel.feature_of_dependent f hDependent

/-! ## What runs take -/

theorem taken_of_closing (s : Session (Watched σ)) :
    (closing.outcome s).2.store.taken = s.store.taken := by
  have hFinish : (finish : Run (Watched σ) Unit).outcome s = ((Store.finish s.store.store).result,
      { s with
        store := (Store.finish s.store).store
        notes := s.notes ++ (Store.finish s.store).notes }) := rfl
  rw [closing, outcome_bind, hFinish]
  cases (Store.finish s.store.store).result <;> rfl

/-- Nothing is taken before the first turn or behind the last one. -/
theorem taken_of_steps (p : Pipeline) (ctx : Context) {faults : List Fault}
    (hNotFatal : ∀ fault ∈ faults, fault.isFatal = false) (s : Session (Watched σ)) :
    ∃ s₁, (opening ctx faults).Gives s () s₁ ∧ s₁.store.taken = s.store.taken ∧
      ((p.steps ctx faults).outcome s).2.store.taken =
        ((p.turns ctx).outcome s₁).2.store.taken := by
  have hOpening : (opening ctx faults : Run (Watched σ) Unit).Yields s ()
      { diagnostics := faults.map (ctx.diagnosticOf scopeGraphId) } :=
    (yields_note s _).bind (diagnoseAll_yields scopeGraphId hNotFatal)
  obtain ⟨s₁, hGives, hGrows⟩ := hOpening
  refine ⟨s₁, hGives, by simpa using hGrows.store.taken, ?_⟩
  have hOutcome : (opening ctx faults).outcome s = (.ok (), s₁) := hGives
  rw [steps_eq, outcome_bind, hOutcome]
  simp only
  rw [outcome_bind]
  cases (p.turns ctx).outcome s₁ with
  | mk result s₂ =>
    cases result with
    | ok => exact taken_of_closing s₂
    | error fault => rfl

omit [Store σ] in
theorem outcome_of_going_on {α : Type} {ctx : Context} {stopped m : Run σ α} {s : Session σ}
    (hGoesOn : (ctx.failFast && !s.journal.diagnostics.isEmpty) = false) :
    (ctx.shouldStop >>= fun stop => if stop = true then stopped else m).outcome s =
      m.outcome s := by
  have hAsk : ctx.shouldStop.Gives s false s := gives_shouldStop_iff.mpr ⟨hGoesOn, rfl⟩
  rw [outcome_bind, show _ = _ from hAsk]
  rfl

/-- Without the feature nobody refers to child scopes. -/
theorem taken_without_viewModel (hOff : settings.features.has .viewModel = false)
    {ctx : Context} {s : Session (Watched σ)} (hCache : s.CacheValid ctx.table) :
    ∃ made : List Delivery, (((build settings []).turns ctx).outcome s).2.store.taken =
      s.store.taken ++ made.map Delivery.unit ∧ ∀ d ∈ made, d.generator ∉ dependents := by
  have hComposed : ctx.Composed (fun d => d.generator ∉ dependents) true
      (fun b => ((build settings []).turns (ctx.stopping b) : Run (Watched σ) Unit))
      fun _ => True := by
    refine composed_turns (fun _ => mem_builtIn_of_mem_generators) fun g hMem d hSigned => ?_
    rw [hSigned.1]
    intro hDependent
    have hFeature := feature_of_dependent g (mem_builtIn_of_mem_generators hMem) hDependent
    obtain ⟨_, _, hMem⟩ := List.mem_flatMap.mp hMem
    have hOn : settings.features.has g.feature = true :=
      (List.mem_filter.mp (List.mem_of_mem_filter hMem)).2
    rw [hFeature, hOff] at hOn
    cases hOn
  exact hComposed.takes ctx.failFast hCache

theorem outcome_of_turns {ctx : Context} {g : Generator} {rest : List Generator} {s : Session σ}
    (hList : (build settings []).generators = g :: rest)
    (hGoesOn : (ctx.failFast && !s.journal.diagnostics.isEmpty) = false) :
    ((build settings []).turns ctx).outcome s =
      (Run.during (generatorStretch g.id) (g.generate ctx) >>= fun _ =>
        runGenerators ctx rest).outcome s := by
  unfold turns
  rw [outcome_of_going_on hGoesOn, hList, runGenerators, outcome_of_going_on hGoesOn]

/-- Nothing is taken that refers to child scopes if their turn fails. -/
theorem taken_of_failing_turn {ctx : Context} {s s' : Session (Watched σ)} {fault : Fault}
    (hCache : s.CacheValid ctx.table)
    (hFails :
      (Run.during (generatorStretch childScopes.id) (childScopes.generate ctx)).Fails s fault s') :
    ∃ made : List Delivery, s'.store.taken = s.store.taken ++ made.map Delivery.unit ∧
      ∀ d ∈ made, d.generator ∉ dependents := by
  have hOwn : ctx.Composed (fun d => d.generator = childScopesId) false
      (fun b => (childScopes.generate (ctx.stopping b) : Run (Watched σ) Unit))
      fun _ => True :=
    composed_childScopes fun _ hSigned => hSigned.1
  obtain ⟨made, hTaken, hSigned⟩ :=
    (hOwn.during (generatorStretch childScopes.id)).takes ctx.failFast hCache
  rw [stopping_failFast, show _ = _ from hFails] at hTaken
  refine ⟨made, hTaken, fun d hMem => ?_⟩
  rw [hSigned d hMem]
  decide

/-- With the feature all child scopes are taken before anything that refers to one. -/
theorem taken_with_viewModel (hOn : settings.features.has .viewModel = true)
    {ctx : Context} {s : Session (Watched σ)} (hCache : s.CacheValid ctx.table) :
    ∃ made : List Delivery,
      ((((build settings []).turns ctx).outcome s).2.store.taken =
        s.store.taken ++ made.map Delivery.unit ∧ ∀ d ∈ made, d.generator ∉ dependents) ∨
      ((((build settings []).turns ctx).outcome s).2.store.taken = s.store.taken ++
          (ctx.graph.scopes.flatMap (childDeliveries ctx) ++ made).map Delivery.unit ∧
        ∀ d ∈ made, ctx.Sound → d.Due ctx) := by
  obtain ⟨rest, hList⟩ := generators_of_viewModel hOn
  cases hStop : ctx.failFast && !s.journal.diagnostics.isEmpty with
  | true =>
    have hIdle : ((build settings []).turns ctx).Gives s () s :=
      gives_bind.mpr ⟨true, s, gives_shouldStop_iff.mpr ⟨hStop, rfl⟩, gives_pure.mpr ⟨rfl, rfl⟩⟩
    refine ⟨[], .inl ⟨?_, by simp⟩⟩
    rw [show _ = _ from hIdle]
    simp
  | false =>
    rw [outcome_of_turns hList hStop, outcome_bind]
    let turn : Run (Watched σ) Unit :=
      Run.during (generatorStretch childScopes.id) (childScopes.generate ctx)
    rcases turn.gives_or_fails s with ⟨_, s₁, hGives⟩ | ⟨fault, s₁, hFails⟩
    · obtain ⟨s₂, notes, hStep, rfl⟩ := gives_of_during hGives
      have hGrows := grows_of_childScopes hStop hStep
      have hRest : ctx.Composed (fun d => ctx.Sound → d.Due ctx) true
          (fun b => (runGenerators (ctx.stopping b) rest : Run (Watched σ) Unit))
          fun _ => True := by
        refine composed_runGenerators (fun g hMem => ?_) fun _ _ _ hSigned => hSigned.2
        exact mem_builtIn_of_mem_generators (hList ▸ List.mem_cons_of_mem _ hMem)
      have hNone : Account.CacheValid ctx.table
          { deliveries := ctx.graph.scopes.flatMap (childDeliveries ctx) } := by
        intro found hFound
        cases hFound
      have hCache₂ := hCache.of_grows hNone (hGrows.of_aside s₂.names notes)
      obtain ⟨made, hTaken, hDue⟩ := hRest.takes ctx.failFast hCache₂
      refine ⟨made, .inr ⟨?_, hDue⟩⟩
      rw [show _ = _ from hGives, List.map_append, ← List.append_assoc, ← hGrows.store.taken]
      exact hTaken
    · obtain ⟨made, hTaken⟩ := taken_of_failing_turn hCache hFails
      rw [show _ = _ from hFails]
      exact ⟨made, .inl hTaken⟩

/-- No unit of a run refers to child scopes, or all child scopes are taken before those that do. -/
theorem taken_of_run (settings : Settings) (t : SymbolTable) (store : σ) :
    ∃ made : List Delivery,
      (((build settings []).watchedRun t store).store.taken = made.map Delivery.unit ∧
        ∀ d ∈ made, d.generator ∉ dependents) ∨
      (((build settings []).context t).Sound ∧
        ((build settings []).watchedRun t store).store.taken =
          (((build settings []).context t).graph.scopes.flatMap
            (childDeliveries ((build settings []).context t)) ++ made).map Delivery.unit ∧
        ∀ d ∈ made, d.Due ((build settings []).context t)) := by
  let ctx := (build settings []).context t
  unfold watchedRun
  cases hForest : ctx.graph.validate with
  | error fault =>
    obtain ⟨_, hStore⟩ := run_of_cycle (p := build settings []) (Watched.start store) hForest
    rw [hStore]
    exact ⟨[], .inl ⟨rfl, by simp⟩⟩
  | ok =>
    have hSound : ctx.Sound := ⟨rfl, hForest⟩
    obtain ⟨s₁, hOpening, hNothing, hTaken⟩ := taken_of_steps (build settings []) ctx
      (fun _ => ScopeGraph.not_fatal_of_mem_build) (begin t (Watched.start store))
    have hCache : s₁.CacheValid ctx.table := cacheValid_of_opening rfl hOpening
    have hNothing : s₁.store.taken = [] := hNothing
    rw [run_of_forest (Watched.start store) hForest]
    cases hFeature : settings.features.has .viewModel with
    | false =>
      obtain ⟨made, hTurns, hForeign⟩ := taken_without_viewModel hFeature hCache
      rw [hNothing, List.nil_append] at hTurns
      exact ⟨made, .inl ⟨hTaken.trans hTurns, hForeign⟩⟩
    | true =>
      obtain ⟨made, ⟨hTurns, hForeign⟩ | ⟨hTurns, hDue⟩⟩ := taken_with_viewModel hFeature hCache
      · rw [hNothing, List.nil_append] at hTurns
        exact ⟨made, .inl ⟨hTaken.trans hTurns, hForeign⟩⟩
      · rw [hNothing, List.nil_append] at hTurns
        exact ⟨made, .inr ⟨hSound, hTaken.trans hTurns, fun d hMem => hDue d hMem hSound⟩⟩

omit [Store σ] in
theorem not_dependent_of_mem_children {ctx : Context} {l : List ScopeConfiguration}
    {u : GeneratedUnit} (hMem : u ∈ (l.flatMap (childDeliveries ctx)).map Delivery.unit) :
    u.generator ∉ dependents := by
  obtain ⟨d, hMade, rfl⟩ := List.mem_map.mp hMem
  obtain ⟨c, _, hChild⟩ := List.mem_flatMap.mp hMade
  rw [show d.unit.generator = childScopesId from signed_of_mem_childDeliveries hChild]
  decide

/-- An element that the first part of a list lacks stands behind this part. -/
theorem mem_behind {α : Type} {l m before after : List α} {x : α}
    (hSplit : l ++ m = before ++ x :: after) (hForeign : x ∉ l) : l ⊆ before ∧ x ∈ m := by
  induction l generalizing before with
  | nil => exact ⟨List.nil_subset _, by simp [show m = _ from hSplit]⟩
  | cons y rest ih =>
    cases before with
    | nil =>
      obtain ⟨rfl, _⟩ := List.cons.inj hSplit
      exact absurd List.mem_cons_self hForeign
    | cons z before =>
      obtain ⟨rfl, hTail⟩ := List.cons.inj hSplit
      obtain ⟨hSubset, hMem⟩ := ih hTail fun hRest => hForeign (List.mem_cons_of_mem _ hRest)
      exact ⟨List.cons_subset_cons _ hSubset, hMem⟩

/-- Watching a run does not change it. Whatever it takes of the generators that refer to child
scopes is made for a configured scope that enables view-models itself. It names the child of this
scope and of no other one, and an abstract class of this name has been taken before. If the
generator of child scopes gets to the end of its turn then no two scopes that enable view-models
share a child. -/
theorem child_scopes_first (settings : Settings) (t : SymbolTable) (store : σ) :
    (build settings []).run t store =
      ⟨((build settings []).watchedRun t store).result,
        ((build settings []).watchedRun t store).store.store,
        ((build settings []).watchedRun t store).notes⟩ ∧
    (∀ before u after,
      ((build settings []).watchedRun t store).store.taken = before ++ u :: after →
      u.generator ∈ dependents →
      ∃ (d : Delivery) (c : ScopeConfiguration) (child : ClassName),
        d.unit = u ∧ d.Serves ((build settings []).context t) c.scope ∧ t.Configures c ∧
        c.enables .viewModel = true ∧ Naming.childScope c.scope = .ok child ∧
        Refers c.scope child u.file ∧
        ∃ earlier ∈ before, earlier.generator = childScopesId ∧
          earlier.file.DeclaresAbstract child) ∧
    ((build settings []).Passes childScopes t store → ∀ c c' : ScopeConfiguration,
      t.Configures c → c.enables .viewModel = true → t.Configures c' →
      c'.enables .viewModel = true → c.scope ≠ c'.scope →
      Naming.childScope c.scope ≠ Naming.childScope c'.scope) := by
  refine ⟨run_eq_watchedRun settings t store, fun before u after hSplit hDependent => ?_, ?_⟩
  · obtain ⟨made, ⟨hTaken, hForeign⟩ | ⟨hSound, hTaken, hDue⟩⟩ := taken_of_run settings t store
    · have hMem : u ∈ made.map Delivery.unit := by
        rw [← hTaken, hSplit]
        exact List.mem_append_right _ List.mem_cons_self
      obtain ⟨d, hMade, rfl⟩ := List.mem_map.mp hMem
      exact absurd hDependent (hForeign d hMade)
    · rw [List.map_append, hSplit] at hTaken
      obtain ⟨hBefore, hMem⟩ :=
        mem_behind hTaken.symm fun hChild => not_dependent_of_mem_children hChild hDependent
      obtain ⟨d, hMade, rfl⟩ := List.mem_map.mp hMem
      obtain ⟨scope, child, hServes, hEnabled, hChild, hRefers⟩ :=
        refers_of_due (hDue d hMade) hDependent
      obtain ⟨c, hConfigures, rfl, hEnables⟩ := ScopeGraph.configures_of_enabled hEnabled
      have hConfigured := ScopeGraph.mem_scopes_of_configures hConfigures
      obtain ⟨e, hMadeFor, hGenerator, _, hDeclares⟩ :=
        childDeliveries_eq hSound hConfigured hEnables hChild
      refine ⟨d, c, child, rfl, hServes, hConfigures, hEnables, hChild, hRefers, e.unit, ?_,
        hGenerator, hDeclares⟩
      exact hBefore (List.mem_map_of_mem
        (List.mem_flatMap.mpr ⟨c, hConfigured, by simp [hMadeFor]⟩))
  · rintro ⟨hForest, _, _, s₁, s₂, s₃, _, _, _, hGoesOn, hTurn⟩ c c' hConfigures hEnables
      hConfigures' hEnables' hApart hShared
    obtain ⟨child, hChild, _⟩ := Naming.childScope_eq_ok c.scope
    have hSame := children_distinct ⟨rfl, hForest⟩ (gives_shouldStop_iff.mp hGoesOn).1 hTurn
      (ScopeGraph.mem_scopes_of_configures hConfigures) hEnables
      (ScopeGraph.mem_scopes_of_configures hConfigures') hEnables' hChild (hShared ▸ hChild)
    exact hApart (congrArg ScopeConfiguration.scope hSame)

theorem passes_of_run {store : σ} {report : Report} (hCollect : settings.failFast = false)
    (hOn : settings.features.has .viewModel = true)
    (hRun : ((build settings []).run t store).result = .ok report) :
    (build settings []).Passes childScopes t store := by
  obtain ⟨rest, hList⟩ := generators_of_viewModel hOn
  obtain ⟨s', hSteps, _⟩ := exists_gives_of_run hRun
  obtain ⟨s₁, s₂, hOpening, hTurns, _⟩ := gives_steps_iff.mp hSteps
  rw [turns, gives_unless_stopped hCollect, hList] at hTurns
  obtain ⟨s₃, notes, hTurn, _⟩ := gives_runGenerators_cons hCollect hTurns
  exact ⟨forest_of_run hRun, [], rest, s₁, s₁, s₃, hList, hOpening, gives_pure.mpr ⟨rfl, rfl⟩,
    (gives_shouldStop hCollect).mpr ⟨rfl, rfl⟩, hTurn⟩

end Pipeline

/-! ## A module in a child scope -/

namespace Sample

def mainModule : ClassName where
  package := appScope.package
  simpleNames := ["MainModule"]
  isPackage_package := appScope.isPackage_package

/-- A module that is contributed to the child of the only scope. -/
def wrapped : SymbolTable :=
  .ofList [scope appScope .all none,
    contributed mainModule ViewModel.contributesToViewModel appScope]

end Sample

namespace Pipeline

open Sample ViewModel

/-- The wrapper of the module refers to the child scope that is taken before it. -/
theorem child_scopes_first_wrapper : ∃ earlier u child,
    ((build (.only .viewModel) []).watchedRun wrapped MemoryStore.empty).store.taken =
      [earlier, u] ∧ u.generator = "viewmodel-wrapper" ∧
    child ∈ u.file.scopesUnder WellKnown.contributesTo ∧ earlier.file.DeclaresAbstract child ∧
    (build (.only .viewModel) []).Passes childScopes wrapped MemoryStore.empty ∧
    ∀ c c' : ScopeConfiguration, wrapped.Configures c → c.enables .viewModel = true →
      wrapped.Configures c' → c'.enables .viewModel = true → c.scope ≠ c'.scope →
      Naming.childScope c.scope ≠ Naming.childScope c'.scope := by
  have hIds : ((build (.only .viewModel) []).watchedRun wrapped
      MemoryStore.empty).store.taken.map (·.generator) = [childScopesId, "viewmodel-wrapper"] := by
    decide +kernel
  have hOk : ((build (.only .viewModel) []).run wrapped MemoryStore.empty).result.isOk = true := by
    decide +kernel
  obtain ⟨report, hRun⟩ := exists_report hOk
  have hPasses := passes_of_run (t := wrapped) rfl rfl hRun
  obtain ⟨_, hKnown, hApart⟩ := child_scopes_first (.only .viewModel) wrapped MemoryStore.empty
  obtain ⟨earlier, rest, hTaken, _, hRest⟩ := List.map_eq_cons_iff.mp hIds
  obtain ⟨u, _, rfl, hId, hNil⟩ := List.map_eq_cons_iff.mp hRest
  obtain rfl := List.map_eq_nil_iff.mp hNil
  have hDependent : u.generator ∈ dependents := by
    rw [hId]
    decide
  obtain ⟨_, _, child, _, _, _, _, _, hRefers, first, hFirst, _, hDeclares⟩ :=
    hKnown [earlier] u [] hTaken hDependent
  obtain rfl := List.mem_singleton.mp hFirst
  exact ⟨first, u, child, hTaken, hId, hRefers.names, hDeclares, hPasses, hApart hPasses⟩

end Pipeline

end Bindery
