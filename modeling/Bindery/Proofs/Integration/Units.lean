import Bindery.Proofs.Integration.Targets

/-! # The units that integrate a feature

What integrating one target after the other delivers. Each target gets one file; what is shared is
part of it unless an ancestor provides it, and in that case a skip tells which ancestor does.
-/

namespace Bindery

namespace Integration.Rule

/-- The types that an ancestor may provide, and none if they cannot be built. -/
def shared (rule : Rule) (s : ClassName) : List Source.TypeDecl :=
  (rule.sharedTypes s).toOption.getD []

/-- The types that every scope gets, and none if they cannot be built. -/
def own (rule : Rule) (s : ClassName) : List Source.TypeDecl :=
  (rule.localTypes s).toOption.getD []

end Integration.Rule

namespace Context

open Account Integration Run

variable {σ : Type} [Store σ] {ctx : Context} {generator : String} {rule : Rule}

/-- The file that integrates a feature into a target, and what it is delivered for. -/
def integrationUnit (ctx : Context) (generator : String) (rule : Rule)
    (target : IntegrationTarget) : Delivery where
  generator := generator
  file := (ctx.file rule.package
    (Naming.integrationFile target.scope rule.featureName)).withTypes
    ((if target.inheritedFrom.isSome then [] else rule.shared target.scope) ++
      rule.own target.scope)
  origin := target.declaration

/-- The skip of what an ancestor of the target provides. -/
def inheritanceSkips (generator : String) (target : IntegrationTarget) : List Skip :=
  target.inheritedFrom.toList.map fun ancestor =>
    ⟨generator, target.scope, target.declaration.name, .inheritedFromAncestor ancestor⟩

omit [Store σ] in
theorem gives_liftDomain {α : Type} {r : Except DomainFault α} {s s' : Session σ} {a : α} :
    (Run.ofExcept (liftDomain r) : Run σ α).Gives s a s' ↔ r = .ok a ∧ s = s' := by
  rw [gives_ofExcept]
  cases r <;> simp [liftDomain, Except.mapError]

theorem grows_of_integrate {target : IntegrationTarget} {s s' : Session σ} {u : Unit}
    (h : (ctx.integrate generator rule target).Gives s u s') :
    s.Grows { deliveries := [ctx.integrationUnit generator rule target]
              skips := inheritanceSkips generator target } s' := by
  unfold integrationUnit inheritanceSkips
  rw [integrate] at h
  cases hInherited : target.inheritedFrom with
  | some ancestor =>
    rw [hInherited] at h
    obtain ⟨_, s₁, hSkip, h⟩ := gives_bind.mp h
    obtain ⟨_, _, hNothing, h⟩ := gives_bind.mp h
    obtain ⟨rfl, rfl⟩ := gives_pure.mp hNothing
    obtain ⟨own, _, hOwn, hEmit⟩ := gives_bind.mp h
    obtain ⟨hLocal, rfl⟩ := gives_liftDomain.mp hOwn
    have hGrows := ((skip_yields _ s).of_gives hSkip).2.trans (grows_of_emit hEmit)
    simp only [Rule.own, hLocal]
    exact hGrows
  | none =>
    rw [hInherited] at h
    obtain ⟨shared, _, hShared, h⟩ := gives_bind.mp h
    obtain ⟨hBuilt, rfl⟩ := gives_liftDomain.mp hShared
    obtain ⟨own, _, hOwn, hEmit⟩ := gives_bind.mp h
    obtain ⟨hLocal, rfl⟩ := gives_liftDomain.mp hOwn
    simp only [Rule.own, Rule.shared, hBuilt, hLocal]
    exact grows_of_emit hEmit

theorem grows_of_integrateEach (hCollect : ctx.failFast = false) {targets : List IntegrationTarget}
    {s s' : Session σ} {u : Unit} (h : (ctx.integrateEach generator rule targets).Gives s u s') :
    s.Grows { deliveries := targets.map (ctx.integrationUnit generator rule)
              skips := targets.flatMap (inheritanceSkips generator) } s' := by
  induction targets generalizing s with
  | nil =>
    obtain ⟨_, rfl⟩ := gives_pure.mp h
    exact .refl s
  | cons target rest ih =>
    rw [integrateEach, gives_unless_stopped hCollect] at h
    obtain ⟨_, s₁, hFirst, hRest⟩ := gives_bind.mp h
    have hTotal := (grows_of_integrate hFirst).trans (ih hRest)
    exact hTotal

/-- The candidates come first if they are resolved here, then the scan over the bids, and then the
units of the winners. -/
def integrationAccount (ctx : Context) (generator : String) (f : Feature) (rule : Rule)
    (s : Session σ) (winners : List Bid) (beaten : List (Bid × Bid)) : Account :=
  ctx.resolving generator s ++
    { skips := beaten.map (duplicateSkip generator) } ++
    { deliveries := (winners.map (ctx.targetOf f)).map (ctx.integrationUnit generator rule)
      skips := (winners.map (ctx.targetOf f)).flatMap (inheritanceSkips generator) }

theorem grows_of_integration (hCollect : ctx.failFast = false)
    (hForest : ctx.graph.validate = .ok ()) {f : Feature} {s s' : Session σ} {u : Unit}
    (hCache : s.CacheValid ctx.table)
    (h : ((Generator.integration generator f rule).generate ctx).Gives s u s') :
    ∃ winners beaten, Selection ctx.table ctx.graph f winners beaten ∧
      s.Grows (ctx.integrationAccount generator f rule s winners beaten) s' := by
  obtain ⟨winners, beaten, hSelection, hYields⟩ :=
    integrationTargets_yields hForest generator f hCache
  obtain ⟨targets, s₁, hTargets, hUnits⟩ := gives_bind.mp h
  obtain ⟨rfl, hGrows⟩ := hYields.of_gives hTargets
  exact ⟨winners, beaten, hSelection, hGrows.trans (grows_of_integrateEach hCollect hUnits)⟩

omit [Store σ] in
theorem resolving_signedBy (ctx : Context) (generator : String) (s : Session σ) :
    (ctx.resolving generator s).SignedBy (· = generator) := by
  unfold resolving
  split
  · exact .empty _
  · refine ⟨by simp, fun d hMem => ?_, by simp⟩
    obtain ⟨_, _, rfl⟩ := List.mem_map.mp hMem
    rfl

omit [Store σ] in
theorem integrationAccount_signedBy (ctx : Context) (generator : String) (f : Feature)
    (rule : Rule) (s : Session σ) (winners : List Bid) (beaten : List (Bid × Bid)) :
    (ctx.integrationAccount generator f rule s winners beaten).SignedBy (· = generator) := by
  refine ((resolving_signedBy ctx generator s).append ⟨by simp, by simp, ?_⟩).append
    ⟨?_, by simp, ?_⟩
  · intro k hMem
    obtain ⟨_, _, rfl⟩ := List.mem_map.mp hMem
    rfl
  · intro d hMem
    obtain ⟨_, _, rfl⟩ := List.mem_map.mp hMem
    rfl
  · intro k hMem
    obtain ⟨target, _, hSkip⟩ := List.mem_flatMap.mp hMem
    obtain ⟨_, _, rfl⟩ := List.mem_map.mp hSkip
    rfl

end Context

end Bindery
