import Bindery.Proofs.Creation.Files
import Bindery.Proofs.Integration.Rules

/-! # What a run relies on in its generators

A generator is honest if it puts its own name to all that it records and leaves no candidates behind
but those of the table. All built-in generators are honest. For generators that a caller registers
besides them honesty is an assumption.
-/

namespace Bindery

open Context Run

/-- A step of the generator that succeeds records under the name of the generator. -/
structure Generator.Honest (g : Generator) : Prop where
  grows : ∀ {σ : Type} [Store σ] {ctx : Context} {s s' : Session σ} {u : Unit},
    ctx.failFast = false → ctx.graph.validate = .ok () → s.CacheValid ctx.table →
    (g.generate ctx : Run σ Unit).Gives s u s' →
    ∃ a : Account, s.Grows a s' ∧ a.SignedBy (· = g.id) ∧ a.CacheValid ctx.table

namespace Generator

theorem creation_honest (id : String) (f : Feature) (marker : ClassName)
    (build : Context → Contribution → Except (List Fault) Source.File) :
    (creation id f marker build).Honest where
  grows hCollect _ _ h :=
    ⟨_, grows_of_creation hCollect h, creationAccount_signedBy _ id f marker build, nofun⟩

theorem integration_honest (id : String) (f : Feature) (rule : Integration.Rule) :
    (integration id f rule).Honest where
  grows {σ _ ctx s s' u} hCollect hForest hCache h := by
    obtain ⟨winners, beaten, _, hGrows⟩ := grows_of_integration hCollect hForest hCache h
    refine ⟨_, hGrows, integrationAccount_signedBy ctx id f rule s winners beaten, ?_⟩
    intro found hFound
    exact resolving_cacheValid ctx id s found hFound

end Generator

namespace ViewModel

variable {σ : Type} [Store σ] {ctx : Context}

/-- The file of the child scope of a configured scope, and none if the scope does not enable the
feature. -/
def childDeliveries (ctx : Context) (c : ScopeConfiguration) : List Delivery :=
  if c.enables .viewModel then
    match ctx.table.find? c.scope, Naming.childScope c.scope,
      Naming.derive c.scope "SealantChildScopes" with
    | some origin, .ok child, .ok fileName =>
      [⟨childScopesId, (ctx.file c.scope.package fileName.simpleName).withTypes
        [childScopeType child], origin⟩]
    | _, _, _ => []
  else []

theorem grows_of_emitChildScope {c : ScopeConfiguration} {s s' : Session σ} {u : Unit}
    (h : (emitChildScope ctx c).Gives s u s') :
    s.Grows { deliveries := childDeliveries ctx c } s' := by
  unfold emitChildScope at h
  unfold childDeliveries
  split at h
  · next hEnables =>
    rw [if_pos hEnables]
    split at h
    · exact absurd h not_gives_throw
    · next origin hOrigin =>
      obtain ⟨child, _, hFirst, h⟩ := gives_bind.mp h
      obtain ⟨hChild, rfl⟩ := gives_liftDomain.mp hFirst
      obtain ⟨_, s₁, hNote, h⟩ := gives_bind.mp h
      obtain ⟨_, hNoted⟩ := (yields_note s _).of_gives hNote
      obtain ⟨fileName, _, hSecond, hEmit⟩ := gives_bind.mp h
      obtain ⟨hName, rfl⟩ := gives_liftDomain.mp hSecond
      rw [hOrigin, hChild, hName]
      exact hNoted.trans (grows_of_emit hEmit)
  · next hEnables =>
    rw [if_neg hEnables]
    obtain ⟨_, rfl⟩ := gives_pure.mp h
    exact .refl s

theorem grows_of_emitChildScopes (hCollect : ctx.failFast = false) {l : List ScopeConfiguration}
    {s s' : Session σ} {u : Unit} (h : (emitChildScopes ctx l).Gives s u s') :
    s.Grows { deliveries := l.flatMap (childDeliveries ctx) } s' := by
  induction l generalizing s with
  | nil =>
    obtain ⟨_, rfl⟩ := gives_pure.mp h
    exact .refl s
  | cons c rest ih =>
    rw [emitChildScopes, gives_unless_stopped hCollect] at h
    obtain ⟨_, s₁, hFirst, hRest⟩ := gives_bind.mp h
    exact (grows_of_emitChildScope hFirst).trans (ih hRest)

theorem signed_of_mem_childDeliveries {c : ScopeConfiguration} {d : Delivery}
    (hMem : d ∈ childDeliveries ctx c) : d.generator = childScopesId := by
  unfold childDeliveries at hMem
  split at hMem
  · split at hMem
    · rw [List.mem_singleton.mp hMem]
    · cases hMem
  · cases hMem

theorem childScopes_honest : childScopes.Honest where
  grows hCollect _ _ h := by
    refine ⟨_, grows_of_emitChildScopes hCollect h, ⟨fun d hMem => ?_, by simp, by simp⟩, nofun⟩
    obtain ⟨c, _, hMade⟩ := List.mem_flatMap.mp hMem
    exact signed_of_mem_childDeliveries hMade

end ViewModel

/-- Every feature has one generator that integrates it. The others create the files of marked
declarations, except for that of the child scopes. -/
theorem cases_of_mem_builtIn {g : Generator} (hMem : g ∈ Pipeline.builtIn) :
    g = ViewModel.childScopes ∨ (∃ c : Creation, g = c.generator) ∨
      ∃ f : Feature, g = f.integration := by
  simp only [Pipeline.builtIn, Appcomponent.generators, Fragment.generators, ViewModel.generators,
    Work.generators, List.mem_append, List.mem_cons, List.not_mem_nil, or_false] at hMem
  rcases hMem with (((rfl | rfl) | rfl | rfl) | rfl | rfl | rfl | rfl) | rfl | rfl
  · exact .inr (.inl ⟨.injection, rfl⟩)
  · exact .inr (.inr ⟨.appcomponent, rfl⟩)
  · exact .inr (.inl ⟨.fragment, rfl⟩)
  · exact .inr (.inr ⟨.fragment, rfl⟩)
  · exact .inl rfl
  · exact .inr (.inl ⟨.viewModel, rfl⟩)
  · exact .inr (.inl ⟨.wrapper, rfl⟩)
  · exact .inr (.inr ⟨.viewModel, rfl⟩)
  · exact .inr (.inl ⟨.worker, rfl⟩)
  · exact .inr (.inr ⟨.work, rfl⟩)

theorem honest_of_mem_builtIn : ∀ g ∈ Pipeline.builtIn, g.Honest := by
  intro g hMem
  obtain rfl | ⟨c, rfl⟩ | ⟨f, rfl⟩ := cases_of_mem_builtIn hMem
  · exact ViewModel.childScopes_honest
  · exact Generator.creation_honest _ _ _ _
  · exact Generator.integration_honest _ _ _

/-- No two built-in generators share a name. -/
theorem builtIn_filter_id : ∀ g ∈ Pipeline.builtIn,
    Pipeline.builtIn.filter (fun h => h.id = g.id) = [g] := by
  intro g hMem
  obtain rfl | ⟨c, rfl⟩ | ⟨f, rfl⟩ := cases_of_mem_builtIn hMem
  · rfl
  · cases c <;> rfl
  · cases f <;> rfl

end Bindery
