import Bindery.Proofs.Integration.Rules
import Bindery.Proofs.Run.Pipeline
import Bindery.Proofs.Scope.Inheritance

/-! # Shared types stand next to the root

A successful run delivers one unit for each integrated scope. The types that a feature shares are
part of it just if no scope strictly above enables the feature, so that of the integrated scopes on
a chain at most one has them. Every other one has a skip that names the nearest enabling ancestor.
-/

namespace Bindery

open Integration

/-- The feature is on, the scope itself enables it, and somebody bids for the scope. -/
structure Feature.Integrated (f : Feature) (settings : Settings) (t : SymbolTable)
    (s : ClassName) : Prop where
  on : settings.features.has f = true
  enabled : (ScopeGraph.build t).1.enabled s f = true
  asked : ∃ b : Bid, b.Placed t ∧ b.scope = s

/-- Whether an ancestor declares what is left out. -/
def SkipReason.isInheritance : SkipReason → Bool
  | duplicateScope _ => false
  | inheritedFromAncestor _ => true

/-- The unit that integrates a feature into a scope, and the skip that goes with it. -/
structure Feature.IntegratedBy (f : Feature) (g : ScopeGraph) (skips : List Skip) (s : ClassName)
    (u : Delivery) : Prop where
  package : u.file.package = f.rule.package
  name : u.file.name = Naming.integrationFile s f.rule.featureName
  shared_built : f.rule.sharedTypes s = .ok (f.rule.shared s)
  shared_some : f.rule.shared s ≠ []
  own_built : f.rule.localTypes s = .ok (f.rule.own s)
  shared_iff : ∀ type ∈ f.rule.shared s, type ∈ u.file.types ↔ ¬ g.Inherits f s
  own_mem : ∀ type ∈ f.rule.own s, type ∈ u.file.types
  covered : ∀ type ∈ u.file.types, type ∈ f.rule.shared s ∨ type ∈ f.rule.own s
  skips_eq : ∃ chain, g.ChainAbove s chain ∧
    (skips.filter fun k =>
      (decide (k.scope = s) && k.reason.isInheritance) && decide (k.generator = f.integrationId)) =
    (chain.find? fun a => g.enabled a f).toList.map fun ancestor =>
      ⟨f.integrationId, s, u.origin.name, .inheritedFromAncestor ancestor⟩

/-- The unit of the scope has the shared types. -/
def Feature.Carries (f : Feature) (made : List (ClassName × Delivery)) (s : ClassName) : Prop :=
  ∃ u, (s, u) ∈ made ∧ ∀ type ∈ f.rule.shared s, type ∈ u.file.types

namespace Context

variable {ctx : Context} {f : Feature} {winners : List Bid}

theorem inheritedFrom_eq {s : ClassName} {chain : List ClassName}
    (h : ctx.graph.ChainAbove s chain) :
    ctx.inheritedFrom s f = chain.find? fun a => ctx.graph.enabled a f := by
  rw [inheritedFrom, h.nearestEnabling]

/-- The unit of a winning bid. -/
def unitOf (ctx : Context) (f : Feature) (b : Bid) : Delivery :=
  ctx.integrationUnit f.integrationId f.rule (ctx.targetOf f b)

theorem resolving_quiet {σ : Type} (ctx : Context) (generator : String) (s : Session σ) :
    (ctx.resolving generator s).deliveries = [] ∧ (ctx.resolving generator s).skips = [] := by
  unfold resolving
  split <;> exact ⟨rfl, rfl⟩

theorem deliveries_integrationAccount {σ : Type} (s : Session σ) (beaten : List (Bid × Bid)) :
    (ctx.integrationAccount f.integrationId f f.rule s winners beaten).deliveries =
      winners.map (ctx.unitOf f) := by
  simp only [integrationAccount, Account.deliveries_append, (ctx.resolving_quiet _ s).1,
    List.nil_append, List.map_map]
  rfl

/-- The skips of inheritance for the scope of a winner are those of its target. -/
theorem filter_inheritance {beaten : List (Bid × Bid)} {σ : Type} {s : Session σ} {b : Bid}
    (hNodup : (winners.map (·.scope)).Nodup) (hMem : b ∈ winners) :
    (ctx.integrationAccount f.integrationId f f.rule s winners beaten).skips.filter
      (fun k => decide (k.scope = b.scope) && k.reason.isInheritance) =
    inheritanceSkips f.integrationId (ctx.targetOf f b) := by
  have hBeaten : (beaten.map (duplicateSkip f.integrationId)).filter
      (fun k => decide (k.scope = b.scope) && k.reason.isInheritance) = [] := by
    refine List.filter_eq_nil_iff.mpr fun k hk => ?_
    obtain ⟨_, _, rfl⟩ := List.mem_map.mp hk
    simp [duplicateSkip, SkipReason.isInheritance]
  have hTargets : ((winners.map (ctx.targetOf f)).map (·.scope)).Nodup := by
    rw [List.map_map]
    exact hNodup
  have hOwn := filter_flatMap_of_nodup (h := inheritanceSkips f.integrationId)
    (p := fun k => decide (k.scope = b.scope) && k.reason.isInheritance) hTargets
    (List.mem_map_of_mem hMem) (fun target _ k hk => by
      obtain ⟨ancestor, _, rfl⟩ := List.mem_map.mp hk
      simp [SkipReason.isInheritance, targetOf])
  simp only [integrationAccount, Account.skips_append, (ctx.resolving_quiet _ s).2, List.nil_append,
    List.filter_append, hBeaten]
  exact hOwn

theorem integratedBy_of_mem (hForest : ctx.graph.validate = .ok ()) {σ : Type} {s : Session σ}
    {beaten : List (Bid × Bid)} {skips : List Skip} {b : Bid}
    (hSkips : skips.filter (fun k => k.generator = f.integrationId) =
      (ctx.integrationAccount f.integrationId f f.rule s winners beaten).skips)
    (hNodup : (winners.map (·.scope)).Nodup) (hMem : b ∈ winners) :
    f.IntegratedBy ctx.graph skips b.scope (ctx.unitOf f b) := by
  obtain ⟨chain, hAbove⟩ := ScopeGraph.exists_chainAbove hForest b.scope
  have hInherited : (ctx.targetOf f b).inheritedFrom =
      chain.find? fun a => ctx.graph.enabled a f := inheritedFrom_eq hAbove
  have hTypes : (ctx.unitOf f b).file.types =
      (if (chain.find? fun a => ctx.graph.enabled a f).isSome then [] else f.rule.shared b.scope) ++
        f.rule.own b.scope := by
    rw [← hInherited]
    rfl
  refine ⟨rfl, rfl, (f.shared_built _).1, f.shared_ne_nil _, (f.own_built _).1,
    fun type hShared => ?_, fun type hOwn => ?_, fun type hType => ?_, chain, hAbove, ?_⟩
  · rw [hTypes, hAbove.inherits_iff_isSome, List.mem_append,
      or_iff_left (Feature.notMem_own_of_mem_shared hShared)]
    cases (chain.find? fun a => ctx.graph.enabled a f).isSome with
    | true => simp
    | false => simpa using hShared
  · rw [hTypes]
    exact List.mem_append_right _ hOwn
  · rw [hTypes] at hType
    rcases List.mem_append.mp hType with hType | hType
    · split at hType
      · cases hType
      · exact .inl hType
    · exact .inr hType
  · rw [← List.filter_filter, hSkips, filter_inheritance hNodup hMem, inheritanceSkips, hInherited]
    rfl

end Context

/-- A unit has the shared types just if its scope does not inherit. -/
theorem Feature.IntegratedBy.carries_iff {f : Feature} {g : ScopeGraph} {skips : List Skip}
    {s : ClassName} {u : Delivery} (h : f.IntegratedBy g skips s u) :
    (∀ type ∈ f.rule.shared s, type ∈ u.file.types) ↔ ¬ g.Inherits f s := by
  constructor
  · intro hAll
    obtain ⟨type, hShared⟩ := List.exists_mem_of_ne_nil _ h.shared_some
    exact (h.shared_iff type hShared).mp (hAll type hShared)
  · intro hFree type hShared
    exact (h.shared_iff type hShared).mpr hFree

/-- The units of one generator, by the scopes that they integrate. -/
structure Feature.Made (f : Feature) (settings : Settings) (t : SymbolTable) (a : Account)
    (made : List (ClassName × Delivery)) : Prop where
  deliveries : a.deliveries.filter (fun d => d.generator = f.integrationId) = made.map Prod.snd
  nodup : (made.map Prod.fst).Nodup
  mem_iff : ∀ s, s ∈ made.map Prod.fst ↔ f.Integrated settings t s
  integratedBy : ∀ s u, (s, u) ∈ made → f.IntegratedBy (ScopeGraph.build t).1 a.skips s u

namespace Feature.Made

variable {f : Feature} {settings : Settings} {t : SymbolTable} {a : Account}
  {made : List (ClassName × Delivery)} {s p : ClassName} {chain : List ClassName}

theorem carries_iff (h : f.Made settings t a made) :
    f.Carries made p ↔ f.Integrated settings t p ∧ ¬ (ScopeGraph.build t).1.Inherits f p := by
  constructor
  · rintro ⟨u, hMade, hAll⟩
    exact ⟨(h.mem_iff p).mp (List.mem_map.mpr ⟨_, hMade, rfl⟩),
      (h.integratedBy p u hMade).carries_iff.mp hAll⟩
  · rintro ⟨hIntegrated, hFree⟩
    obtain ⟨⟨_, u⟩, hMade, rfl⟩ := List.mem_map.mp ((h.mem_iff p).mpr hIntegrated)
    exact ⟨u, hMade, (h.integratedBy _ u hMade).carries_iff.mpr hFree⟩

/-- Whoever has the shared types on a chain is the enabling scope next to the root. -/
theorem rootmost_of_carries (h : f.Made settings t a made)
    (hAbove : (ScopeGraph.build t).1.ChainAbove s chain) (hMem : p ∈ s :: chain)
    (hCarries : f.Carries made p) :
    ((s :: chain).filter fun q => (ScopeGraph.build t).1.enabled q f).getLast? = some p := by
  obtain ⟨hIntegrated, hFree⟩ := h.carries_iff.mp hCarries
  exact hAbove.rootmost_iff.mpr ⟨hMem, hIntegrated.enabled, hFree⟩

theorem carries_of_rootmost (h : f.Made settings t a made)
    (hAbove : (ScopeGraph.build t).1.ChainAbove s chain)
    (hAll : ∀ q ∈ s :: chain, (ScopeGraph.build t).1.enabled q f = true →
      f.Integrated settings t q)
    (hLast : ((s :: chain).filter fun q => (ScopeGraph.build t).1.enabled q f).getLast? = some p) :
    f.Carries made p := by
  obtain ⟨hMem, hEnabled, hFree⟩ := hAbove.rootmost_iff.mp hLast
  exact h.carries_iff.mpr ⟨hAll p hMem hEnabled, hFree⟩

end Feature.Made

namespace Pipeline

variable {σ : Type} [Store σ] {settings : Settings} {extra : List Generator} {t : SymbolTable}
  {store : σ} {report : Report}

/-- A successful run has an account in which the units of a feature are made. -/
theorem exists_made (hCollect : settings.failFast = false) (hGuests : ∀ g ∈ extra, Guest g)
    (hRun : ((build settings extra).run t store).result = .ok report) (f : Feature) :
    ∃ a made, ((build settings extra).run t store).Accounts store a ∧
      f.Made settings t a made := by
  have hForest := forest_of_run hRun
  cases hOn : settings.features.has f with
  | false =>
    obtain ⟨a, hAccounts, hShows⟩ :=
      shows_nothing_of_run hCollect hGuests hRun f.integration_mem_builtIn hOn
    refine ⟨a, [], hAccounts, hShows.deliveries, .nil, fun s => ?_, fun s u hMem => nomatch hMem⟩
    refine ⟨fun hMem => absurd hMem List.not_mem_nil, fun hIntegrated => ?_⟩
    rw [hIntegrated.on] at hOn
    cases hOn
  | true =>
    obtain ⟨s₁, s₂, hCache, hGenerate, hShow⟩ :=
      shows_of_run hCollect hGuests hRun f.integration_mem_builtIn hOn
    obtain ⟨winners, beaten, hSelection, hGrows⟩ :=
      Context.grows_of_integration hCollect hForest hCache hGenerate
    have hSigned := Context.integrationAccount_signedBy ((build settings extra).context t)
      f.integrationId f f.rule s₁ winners beaten
    obtain ⟨a, hAccounts, hShows⟩ := hShow _ hGrows hSigned
    have hScopes : (winners.map fun b =>
        (b.scope, ((build settings extra).context t).unitOf f b)).map Prod.fst =
        winners.map (·.scope) := by
      rw [List.map_map]
      rfl
    refine ⟨a, _, hAccounts, ?_, hScopes ▸ hSelection.scopes_nodup, fun s => ?_, fun s u hMem => ?_⟩
    · rw [List.map_map]
      exact hShows.deliveries.trans (Context.deliveries_integrationAccount s₁ beaten)
    · rw [hScopes, hSelection.mem_scopes_iff]
      constructor
      · rintro ⟨hEnabled, hAsked⟩
        exact ⟨hOn, hEnabled, hAsked⟩
      · rintro ⟨_, hEnabled, hAsked⟩
        exact ⟨hEnabled, hAsked⟩
    · obtain ⟨b, hWinner, hSame⟩ := List.mem_map.mp hMem
      obtain ⟨rfl, rfl⟩ := Prod.mk.inj hSame
      exact Context.integratedBy_of_mem hForest hShows.skips hSelection.scopes_nodup hWinner

/-- In a successful run every integrated scope has one unit for the feature. It has the types of the
scope itself, and the shared types just if no scope strictly above enables the feature; otherwise
one skip names the nearest such scope. So on any chain at most one unit has the shared types: that
of the enabling scope next to the root, if all enabling scopes of the chain are integrated. -/
theorem shared_types_next_to_root (settings : Settings) (extra : List Generator) (t : SymbolTable)
    (store : σ) (report : Report) (f : Feature) (hCollect : settings.failFast = false)
    (hGuests : ∀ g ∈ extra, Guest g)
    (hRun : ((build settings extra).run t store).result = .ok report) :
    ∃ a made, ((build settings extra).run t store).Accounts store a ∧ f.Made settings t a made ∧
      ∀ s chain, (ScopeGraph.build t).1.ChainAbove s chain →
        (∀ p ∈ s :: chain, ∀ q ∈ s :: chain, f.Carries made p → f.Carries made q → p = q) ∧
        ∀ root, ((s :: chain).filter fun p => (ScopeGraph.build t).1.enabled p f).getLast? =
            some root →
          (∀ p ∈ s :: chain, (ScopeGraph.build t).1.enabled p f = true →
            f.Integrated settings t p) →
          ∀ p ∈ s :: chain, (f.Carries made p ↔ p = root) := by
  obtain ⟨a, made, hAccounts, hMade⟩ := exists_made hCollect hGuests hRun f
  refine ⟨a, made, hAccounts, hMade, fun s chain hAbove => ⟨?_, ?_⟩⟩
  · intro p hp q hq hCarries hCarries'
    have hLast := hMade.rootmost_of_carries hAbove hp hCarries
    have hLast' := hMade.rootmost_of_carries hAbove hq hCarries'
    exact Option.some.inj (hLast.symm.trans hLast')
  · intro root hRoot hAll p hp
    constructor
    · intro hCarries
      exact Option.some.inj ((hMade.rootmost_of_carries hAbove hp hCarries).symm.trans hRoot)
    · rintro rfl
      exact hMade.carries_of_rootmost hAbove hAll hRoot

end Pipeline

/-! ## A scope below another one -/

namespace Sample

def featureScope : ClassName where
  package := appScope.package
  simpleNames := ["FeatureScope"]
  isPackage_package := appScope.isPackage_package

/-- Two scopes that enable everything, one below the other, with a component for each. -/
def nested : SymbolTable :=
  .ofList [scope appScope .all none, scope featureScope .all (some appScope),
    component mainComponent appScope, component testComponent featureScope]

end Sample

namespace Pipeline

open Sample

/-- Of the two units the one of the upper scope has the shared types. -/
theorem shared_types_nested :
    ∃ report, ((build (.only .work) []).run nested MemoryStore.empty).result = .ok report ∧
      ∃ a made, Feature.Made .work (.only .work) nested a made ∧ a.journal = report.journal ∧
        Feature.Carries .work made appScope ∧ ¬ Feature.Carries .work made featureScope := by
  have hOk : ((build (.only .work) []).run nested MemoryStore.empty).result.isOk = true := by
    decide +kernel
  obtain ⟨report, hRun⟩ := exists_report hOk
  obtain ⟨a, made, hAccounts, hMade, hChains⟩ := shared_types_next_to_root (.only .work) [] nested
    MemoryStore.empty report .work rfl (fun g hMem => nomatch hMem) hRun
  have hAbove : (ScopeGraph.build nested).1.ChainAbove featureScope [appScope] :=
    .step rfl (.root rfl)
  have hFirst : nested.find? mainComponent = some (component mainComponent appScope) := rfl
  have hSecond : nested.find? testComponent = some (component testComponent featureScope) := rfl
  have hAll : ∀ p ∈ [featureScope, appScope], (ScopeGraph.build nested).1.enabled p .work = true →
      Feature.Integrated .work (.only .work) nested p := by
    intro p hMem hEnabled
    refine ⟨rfl, hEnabled, ?_⟩
    rcases List.mem_pair.mp hMem with rfl | rfl
    · exact ⟨⟨component testComponent featureScope, 0, featureScope⟩,
        ⟨(SymbolTable.find?_eq_some_iff.mp hSecond).1, .component rfl rfl⟩, rfl⟩
    · exact ⟨⟨component mainComponent appScope, 0, appScope⟩,
        ⟨(SymbolTable.find?_eq_some_iff.mp hFirst).1, .component rfl rfl⟩, rfl⟩
  have hCarries := (hChains featureScope [appScope] hAbove).2 appScope rfl hAll
  refine ⟨report, hRun, a, made, hMade, ?_, ?_, ?_⟩
  · have hReport := hAccounts.report.symm.trans hRun
    rw [← Except.ok.inj hReport]
  · exact (hCarries appScope (by simp)).mpr rfl
  · intro hOther
    exact absurd ((hCarries featureScope (by simp)).mp hOther) (by decide)

end Pipeline

end Bindery
