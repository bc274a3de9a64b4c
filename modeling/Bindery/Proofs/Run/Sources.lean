import Bindery.Proofs.Creation.Accounting
import Bindery.Proofs.Run.Deliveries

/-! # Where deliveries come from

Whatever a built-in generator delivers is named after one derivation. In a sound context a run that
collects diagnostics has one delivery for each derivation that is due, and none besides. So it is
known from the derivations whether the deliveries of a run are compatible.
-/

namespace Bindery

open Integration Naming Source

namespace Source.File.NamedBy

variable {d : Delivery} {x : Derivation}

theorem key_eq (h : d.file.NamedBy x) : d.unit.key = x.key := by
  change (⟨d.file.package, d.file.name⟩ : UnitKey) = ⟨x.package, x.fileName⟩
  rw [h.package, h.name]

theorem named (h : d.file.NamedBy x) :
    d.file.topLevelNames = .ok d.names ∧ d.names.map ClassName.address = x.addresses := by
  obtain ⟨names, hNames⟩ := h.wellNamed.exists_topLevelNames
  have hOwn : d.names = names := by
    rw [Delivery.names, hNames]
    rfl
  rw [hOwn, addresses_of_topLevelNames hNames, Derivation.addresses, ← h.types, ← h.package,
    List.map_map]
  exact ⟨hNames, rfl⟩

end Source.File.NamedBy

/-- Deliveries are compatible just if no two of their derivations meet. -/
theorem compatible_iff {made : List Delivery} {sources : List Derivation}
    (hNamed : List.Forall₂ (·.file.NamedBy ·) made sources) (hNodup : sources.Nodup) :
    Compatible made ↔ ∀ x ∈ sources, ∀ y ∈ sources, x ≠ y → ¬ x.Meets y := by
  have hFacts : (∀ d ∈ made, d.file.topLevelNames = .ok d.names) ∧
      (made.flatMap Delivery.names).map ClassName.address = sources.flatMap Derivation.addresses ∧
      (made.map fun d => d.unit.key) = sources.map Derivation.key := by
    induction hNamed with
    | nil => simp
    | cons hFirst _ ih =>
      obtain ⟨hRest, hAddresses, hKeys⟩ := ih (List.nodup_cons.mp hNodup).2
      obtain ⟨hOwn, hAddress⟩ := hFirst.named
      refine ⟨List.forall_mem_cons.mpr ⟨hOwn, hRest⟩, ?_, ?_⟩
      · rw [List.flatMap_cons, List.map_append, hAddress, hAddresses, List.flatMap_cons]
      · rw [List.map_cons, hFirst.key_eq, hKeys, List.map_cons]
  obtain ⟨hAll, hAddresses, hKeys⟩ := hFacts
  rw [← Derivation.apart_iff hNodup, ← hAddresses, ← hKeys,
    List.nodup_map_iff ClassName.address_injective]
  exact ⟨fun h => ⟨h.names_nodup, h.keys_nodup⟩, fun h => ⟨hAll, h.1, h.2⟩⟩

/-! ## What is due -/

/-- Whether an ancestor of the scope enables the feature. -/
def ScopeGraph.inherits (g : ScopeGraph) (s : ClassName) (f : Feature) : Bool :=
  match g.nearestEnabling s f with
  | .ok ancestor => ancestor.isSome
  | .error _ => false

namespace Derivation

/-- What the declarations of a table ask for. -/
inductive Due (t : SymbolTable) : Derivation → Prop where
  | childScope {c : ScopeConfiguration} (hConfigures : t.Configures c)
      (hEnables : c.enables .viewModel = true) : Due t (.childScope c.scope)
  | creation {c : Creation} {d : Declaration} {scope : ClassName}
      (hMarked : d ∈ t.annotated c.marker)
      (hScope : Resolution.scopeOf t d [c.marker] = .ok scope)
      (hEnabled : (ScopeGraph.build t).1.enabled scope c.feature = true)
      (hShape : c.Accepts t d) : Due t (.creation c d.name)
  | integration {f : Feature} {b : Bid} (hPlaced : b.Placed t)
      (hEnabled : (ScopeGraph.build t).1.enabled b.scope f = true) :
      Due t (.integration f b.scope ((ScopeGraph.build t).1.inherits b.scope f))

/-- The generator that makes the file. -/
def generator : Derivation → Generator
  | childScope _ => ViewModel.childScopes
  | creation c _ => c.generator
  | integration f _ _ => f.integration

theorem generator_mem_builtIn (x : Derivation) : x.generator ∈ Pipeline.builtIn := by
  cases x with
  | childScope s => exact List.mem_iff_getElem?.mpr ⟨4, rfl⟩
  | creation c d => exact c.generator_mem_builtIn
  | integration f s inherited => exact f.integration_mem_builtIn

end Derivation

theorem Creation.id_injective : Function.Injective Creation.id := by
  intro c c'
  cases c <;> cases c' <;> decide

theorem Feature.integrationId_injective : Function.Injective Feature.integrationId := by
  intro f f'
  cases f <;> cases f' <;> decide

theorem generator_ids_apart (c : Creation) (f : Feature) : c.id ≠ ViewModel.childScopesId ∧
    f.integrationId ≠ ViewModel.childScopesId ∧ c.id ≠ f.integrationId := by
  cases c <;> cases f <;> decide

/-! ## The sources of each generator -/

/-- The derivations that deliveries are made of, in their order. -/
structure Sources (due : Derivation → Prop) (made : List Delivery) (sources : List Derivation) :
    Prop where
  named : List.Forall₂ (·.file.NamedBy ·) made sources
  nodup : sources.Nodup
  due_iff : ∀ x, x ∈ sources ↔ due x

theorem Sources.congr {due due' : Derivation → Prop} {made : List Delivery}
    {sources : List Derivation} (h : Sources due made sources) (hDue : ∀ x, due x ↔ due' x) :
    Sources due' made sources :=
  ⟨h.named, h.nodup, fun x => (h.due_iff x).trans (hDue x)⟩

/-- Elements with distinct keys have a delivery each, or none. -/
theorem exists_sources {α : Type} {l : List α} {key : α → ClassName} {share : α → List Delivery}
    {source : α → Derivation} {p : α → Prop} (hKeys : (l.map key).Nodup)
    (hSource : ∀ a b, source a = source b → key a = key b)
    (hShare : ∀ a ∈ l,
      ¬ p a ∧ share a = [] ∨ p a ∧ ∃ d, share a = [d] ∧ d.file.NamedBy (source a)) :
    ∃ sources, Sources (fun x => ∃ a ∈ l, p a ∧ source a = x) (l.flatMap share) sources := by
  induction l with
  | nil => exact ⟨[], .nil, .nil, by simp⟩
  | cons a rest ih =>
    obtain ⟨hFirst, hRest⟩ := List.forall_mem_cons.mp hShare
    obtain ⟨hFresh, hKeys⟩ := List.nodup_cons.mp hKeys
    obtain ⟨sources, hNamed, hNodup, hDue⟩ := ih hKeys hRest
    rcases hFirst with ⟨hOut, hNone⟩ | ⟨hIn, d, hOne, hOwn⟩
    · refine ⟨sources, ?_, hNodup, fun x => ?_⟩
      · rw [List.flatMap_cons, hNone]
        exact hNamed
      · simp [hDue, hOut]
    · refine ⟨source a :: sources, ?_, List.nodup_cons.mpr ⟨fun hMem => ?_, hNodup⟩, fun x => ?_⟩
      · rw [List.flatMap_cons, hOne]
        exact .cons hOwn hNamed
      · obtain ⟨b, hb, _, hSame⟩ := (hDue _).mp hMem
        exact hFresh (hSource b a hSame ▸ List.mem_map_of_mem hb)
      · simp [hDue, hIn, eq_comm]

namespace Context

variable {ctx : Context}

/-- The sources of what a generator delivers are all that is due of it. -/
def Derives (ctx : Context) (g : Generator) (sources : List Derivation) : Prop :=
  ∃ made, ctx.Delivers g made ∧
    Sources (fun x => x.Due ctx.table ∧ x.generator.id = g.id) made sources

theorem childDeliveries_of_enables (hSound : ctx.Sound) {c : ScopeConfiguration}
    (hConfigured : c ∈ ctx.graph.scopes) (hEnables : c.enables .viewModel = true) :
    ∃ d, ViewModel.childDeliveries ctx c = [d] ∧ d.file.NamedBy (.childScope c.scope) := by
  obtain ⟨origin, child, fileName, _, hChild, hName, hMade⟩ :=
    hSound.exists_childDeliveries hConfigured hEnables
  exact ⟨_, hMade, ViewModel.namedBy_childScope ctx hChild hName⟩

theorem derives_childScopes (hSound : ctx.Sound) (hCollect : ctx.failFast = false) :
    ∃ sources, ctx.Derives ViewModel.childScopes sources := by
  have hKeys : (ctx.graph.scopes.map (·.scope)).Nodup := by
    rw [ScopeGraph.map_scope_scopes]
    exact ctx.graph.byName.keys_nodup
  have hShare : ∀ c ∈ ctx.graph.scopes,
      ¬ c.enables .viewModel = true ∧ ViewModel.childDeliveries ctx c = [] ∨
      c.enables .viewModel = true ∧
        ∃ d, ViewModel.childDeliveries ctx c = [d] ∧ d.file.NamedBy (.childScope c.scope) := by
    intro c hMem
    by_cases hEnables : c.enables .viewModel = true
    · exact .inr ⟨hEnables, childDeliveries_of_enables hSound hMem hEnables⟩
    · exact .inl ⟨hEnables, if_neg hEnables⟩
  obtain ⟨sources, hSources⟩ := exists_sources hKeys
    (fun a b hSame => Derivation.childScope.inj hSame) hShare
  refine ⟨sources, _, delivers_childScopes hSound hCollect, hSources.congr fun x => ?_⟩
  rw [hSound.graph]
  constructor
  · rintro ⟨c, hMem, hEnables, rfl⟩
    exact ⟨.childScope (ScopeGraph.configures_of_mem_scopes hMem) hEnables, rfl⟩
  · rintro ⟨hDue, hId⟩
    cases hDue with
    | childScope hConfigures hEnables =>
      exact ⟨_, ScopeGraph.mem_scopes_of_configures hConfigures, hEnables, rfl⟩
    | @creation c _ _ _ _ _ _ => exact absurd hId (generator_ids_apart c .work).1
    | @integration f _ _ _ => exact absurd hId (generator_ids_apart .worker f).2.1

/-- A marked declaration gets its file just if its scope and its shape are right. -/
theorem deliveriesFor_cases (hSound : ctx.Sound) (c : Creation) (d : Declaration) :
    (¬ ∃ scope, Resolution.scopeOf ctx.table d [c.marker] = .ok scope ∧
        (ScopeGraph.build ctx.table).1.enabled scope c.feature = true ∧ c.Accepts ctx.table d) ∧
      c.deliveriesFor ctx d = [] ∨
    (∃ scope, Resolution.scopeOf ctx.table d [c.marker] = .ok scope ∧
        (ScopeGraph.build ctx.table).1.enabled scope c.feature = true ∧ c.Accepts ctx.table d) ∧
      ∃ u, c.deliveriesFor ctx d = [u] ∧ u.file.NamedBy (.creation c d.name) := by
  unfold Creation.deliveriesFor contribution?
  rw [hSound.graph]
  cases hScope : Resolution.scopeOf ctx.table d [c.marker] with
  | error fault => exact .inl ⟨by simp, rfl⟩
  | ok scope =>
    by_cases hEnabled : (ScopeGraph.build ctx.table).1.enabled scope c.feature = true
    · simp only [hEnabled, if_true, Option.toList_some, List.flatMap_singleton, deliveriesOf]
      by_cases hShape : c.Accepts ctx.table d
      · obtain ⟨file, hBuild, _⟩ : ∃ file, c.build ctx ⟨d, scope⟩ = .ok file ∧ _ :=
          Creation.build_of_accepts hShape scope
        rw [hBuild]
        exact .inr ⟨⟨scope, rfl, hEnabled, hShape⟩, _, rfl, Creation.namedBy_of_build hBuild⟩
      · obtain ⟨faults, hBuild, _⟩ : ∃ faults, c.build ctx ⟨d, scope⟩ = .error faults ∧ _ :=
          Creation.build_of_not_accepts hShape scope
        rw [hBuild]
        refine .inl ⟨?_, rfl⟩
        rintro ⟨_, _, _, hAccepts⟩
        exact hShape hAccepts
    · refine .inl ⟨?_, by simp [hEnabled]⟩
      rintro ⟨_, hOther, hOn, _⟩
      cases hOther
      exact hEnabled hOn

theorem derives_creation (hSound : ctx.Sound) (hCollect : ctx.failFast = false) (c : Creation) :
    ∃ sources, ctx.Derives c.generator sources := by
  have hKeys : ((ctx.table.annotated c.marker).map (·.name)).Nodup :=
    (List.filter_sublist.map _).nodup ctx.table.names_nodup
  obtain ⟨sources, hSources⟩ := exists_sources hKeys
    (fun a b hSame => (Derivation.creation.inj hSame).2)
    fun d _ => deliveriesFor_cases hSound c d
  rw [← Creation.deliveries_creationAccount] at hSources
  refine ⟨sources, _, delivers_creation hSound hCollect c, hSources.congr fun x => ?_⟩
  constructor
  · rintro ⟨d, hMarked, ⟨scope, hScope, hEnabled, hShape⟩, rfl⟩
    exact ⟨.creation hMarked hScope hEnabled hShape, rfl⟩
  · rintro ⟨hDue, hId⟩
    cases hDue with
    | childScope _ _ => exact absurd hId.symm (generator_ids_apart c .work).1
    | creation hMarked hScope hEnabled hShape =>
      obtain rfl := Creation.id_injective hId
      exact ⟨_, hMarked, ⟨_, hScope, hEnabled, hShape⟩, rfl⟩
    | @integration f _ _ _ => exact absurd hId.symm (generator_ids_apart c f).2.2

theorem isSome_inheritedFrom (ctx : Context) (s : ClassName) (f : Feature) :
    (ctx.inheritedFrom s f).isSome = ctx.graph.inherits s f := by
  unfold inheritedFrom ScopeGraph.inherits
  cases ctx.graph.nearestEnabling s f <;> rfl

theorem derives_integration (hSound : ctx.Sound) (hCollect : ctx.failFast = false) (f : Feature) :
    ∃ sources, ctx.Derives f.integration sources := by
  obtain ⟨winners, beaten, hSelection, hDelivers⟩ := delivers_integration hSound hCollect f
  rw [List.map_map, List.map_eq_flatMap] at hDelivers
  have hOwn (b : Bid) : (ctx.integrationUnit f.integrationId f.rule (ctx.targetOf f b)).file.NamedBy
      (.integration f b.scope (ctx.inheritedFrom b.scope f).isSome) :=
    f.namedBy_integrationUnit ctx (ctx.targetOf f b)
  obtain ⟨sources, hSources⟩ := exists_sources (p := fun _ => True) hSelection.scopes_nodup
    (fun a b hSame => (Derivation.integration.inj hSame).2.1)
    fun b _ => .inr ⟨trivial, _, rfl, hOwn b⟩
  refine ⟨sources, _, hDelivers, hSources.congr fun x => ?_⟩
  simp only [isSome_inheritedFrom, hSound.graph, true_and]
  rw [hSound.graph] at hSelection
  constructor
  · rintro ⟨b, hMem, rfl⟩
    have hWins := (hSelection.winners_iff b).mp hMem
    exact ⟨.integration hWins.placed hWins.enabled, rfl⟩
  · rintro ⟨hDue, hId⟩
    cases hDue with
    | childScope _ _ => exact absurd hId.symm (generator_ids_apart .worker f).2.1
    | @creation c _ _ _ _ _ _ => exact absurd hId (generator_ids_apart c f).2.2
    | @integration f' b hPlaced hEnabled =>
      obtain rfl := Feature.integrationId_injective hId
      obtain ⟨w, hMem, hSame⟩ :=
        List.mem_map.mp (hSelection.mem_scopes_iff.mpr ⟨hEnabled, b, hPlaced, rfl⟩)
      exact ⟨w, hMem, by rw [hSame]⟩

theorem derives_of_mem_builtIn (hSound : ctx.Sound) (hCollect : ctx.failFast = false)
    {g : Generator} (hMem : g ∈ Pipeline.builtIn) : ∃ sources, ctx.Derives g sources := by
  obtain rfl | ⟨c, rfl⟩ | ⟨f, rfl⟩ := cases_of_mem_builtIn hMem
  · exact derives_childScopes hSound hCollect
  · exact derives_creation hSound hCollect c
  · exact derives_integration hSound hCollect f

end Context

end Bindery
