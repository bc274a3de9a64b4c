import Bindery.Proofs.Run.Composition
import Bindery.Proofs.Run.Due
import Bindery.Proofs.Run.Pipeline
import Bindery.Proofs.Scope.Configured

/-! # Turns of the built-in generators

Every turn of a built-in generator is composed of straight pieces whose deliveries bear its name. In
a sound context the deliveries are due and no turn is bound to fail: names can always be derived,
configured scopes are always declared, and walks along parents always end.
-/

namespace Bindery

open Integration Run

namespace Context

variable {σ : Type} [Store σ] {ctx : Context} {mine : Delivery → Prop}

/-! ## Creation -/

theorem composed_contributionsAmong (id : String) (marker : ClassName) (f : Feature)
    {l : List Declaration} (hDeclared : ∀ d ∈ l, d ∈ ctx.table.declarations) :
    ctx.Composed mine true
      (fun b => ((ctx.stopping b).contributionsAmong id marker f l : Run σ _)) fun found =>
        ∀ c ∈ found, c.declaration ∈ l ∧
          Resolution.scopeOf ctx.table c.declaration [marker] = .ok c.scope ∧
          ctx.graph.enabled c.scope f = true := by
  induction l with
  | nil => exact .pure (by simp)
  | cons d rest ih =>
    obtain ⟨hFirst, hRest⟩ := List.forall_mem_cons.mp hDeclared
    have hBehind : ctx.Composed mine true
        (fun b => ((ctx.stopping b).contributionsAmong id marker f rest : Run σ _)) fun found =>
          ∀ c ∈ found, c.declaration ∈ d :: rest ∧
            Resolution.scopeOf ctx.table c.declaration [marker] = .ok c.scope ∧
            ctx.graph.enabled c.scope f = true := by
      refine (ih hRest).mono fun found hFound c hMem => ?_
      obtain ⟨hListed, hContributed⟩ := hFound c hMem
      exact ⟨List.mem_cons_of_mem _ hListed, hContributed⟩
    refine .ask (.pure (by simp)) ?_
    simp only [table_stopping, graph_stopping, diagnose_stopping]
    cases hScope : Resolution.scopeOf ctx.table d [marker] with
    | error fault =>
      have hNames := Resolution.names_of_scopeOf hScope
      exact .behind (.diagnose id hFirst hNames) fun _ _ => hBehind
    | ok scope =>
      cases hEnabled : ctx.graph.enabled scope f with
      | false =>
        simp only [hEnabled, Bool.false_eq_true, if_false]
        exact .behind (.note ⟨rfl, rfl⟩) fun _ _ => hBehind
      | true =>
        simp only [hEnabled, if_true]
        refine hBehind.go.bind fun found hFound => .pure ?_
        exact List.forall_mem_cons.mpr ⟨⟨List.mem_cons_self, hScope, hEnabled⟩, hFound⟩

theorem names_of_build {c : Creation} {x : Contribution} {faults : List Fault}
    (h : c.build ctx x = .error faults) : ∀ fault ∈ faults, fault.Names x.declaration := by
  intro fault hMem
  by_cases hShape : c.Accepts ctx.table x.declaration
  · obtain ⟨file, hBuilt, _⟩ := Creation.build_of_accepts hShape x.scope
    rw [h] at hBuilt
    cases hBuilt
  · obtain ⟨others, hRefused, _, hNames⟩ := Creation.build_of_not_accepts hShape x.scope
    obtain rfl := Except.error.inj (h.symm.trans hRefused)
    exact hNames fault hMem

theorem composed_createEach (c : Creation) {l : List Contribution}
    (hDeclared : ∀ x ∈ l, x.declaration ∈ ctx.table.declarations)
    (hMine : ∀ x ∈ l, ∀ file, c.build ctx x = .ok file → mine ⟨c.id, file, x.declaration⟩) :
    ctx.Composed mine true
      (fun b => ((ctx.stopping b).createEach c.id c.build l : Run σ Unit)) fun _ => True := by
  induction l with
  | nil => exact .pure trivial
  | cons x rest ih =>
    obtain ⟨hFirst, hRest⟩ := List.forall_mem_cons.mp hMine
    obtain ⟨hOwner, hOwners⟩ := List.forall_mem_cons.mp hDeclared
    refine .ask (.pure trivial) ?_
    simp only [build_stopping, diagnoseAll_stopping]
    cases hBuild : c.build ctx x with
    | ok file =>
      have hEmit : ctx.Straight mine true (ctx.emit c.id file x.declaration : Run σ Unit)
          fun _ => True :=
        .emit (d := ⟨c.id, file, x.declaration⟩) (hFirst file hBuild) fun _ =>
          (Creation.namedBy_of_build hBuild).wellNamed.exists_topLevelNames
      exact .behind hEmit fun _ _ => ih hOwners hRest
    | error faults =>
      exact .behind (.diagnoseAll c.id hOwner (names_of_build hBuild)) fun _ _ =>
        ih hOwners hRest

/-! ## Integration -/

theorem straight_targetsAmong (id : String) (f : Feature) (kept : OrderedMap ClassName ClassName)
    (l : List Candidate) :
    ctx.Straight mine false (ctx.targetsAmong id f kept l : Run σ _) fun _ => True := by
  induction l generalizing kept with
  | nil => exact .pure trivial
  | cons c rest ih =>
    rw [targetsAmong]
    cases hEnabled : ctx.graph.enabled c.scope f with
    | false =>
      simp only [Bool.false_eq_true, if_false]
      exact ih kept
    | true =>
      simp only [if_true]
      cases hKept : kept.get? c.scope with
      | some first => exact (Straight.skip _).behind fun _ _ => ih kept
      | none =>
        have hWalk : ctx.Straight mine false
            (Run.ofExcept (ctx.graph.nearestEnabling c.scope f) : Run σ _) fun _ => True :=
          .ofExcept (fun _ _ => trivial) fun hSound =>
            ⟨_, nearestEnabling_eq_ok hSound.forest c.scope f⟩
        exact hWalk.behind fun _ _ => (ih _).behind fun _ _ => .pure trivial

/-- In a sound context the targets are those of the winning bids. -/
theorem straight_integrationTargets (f : Feature) :
    ctx.Straight mine true (ctx.integrationTargets f.integrationId f : Run σ _) fun targets =>
      ctx.Sound →
      ∀ target ∈ targets, ∃ b : Bid, b.Wins ctx.table ctx.graph f ∧ ctx.targetOf f b = target := by
  have hStraight : ctx.Straight mine true
      (ctx.integrationTargets f.integrationId f : Run σ _) fun _ => True :=
    (Straight.candidates f).bind rfl fun _ _ => straight_targetsAmong _ f _ _
  by_cases hSound : ctx.Sound
  · refine hStraight.learn fun s hCache => ?_
    obtain ⟨winners, beaten, hSelection, hYields⟩ :=
      integrationTargets_yields hSound.forest f.integrationId f hCache
    refine ⟨_, _, hYields, fun _ target hMem => ?_⟩
    obtain ⟨b, hWinner, hTarget⟩ := List.mem_map.mp hMem
    exact ⟨b, (hSelection.winners_iff b).mp hWinner, hTarget⟩
  · exact hStraight.weaken id fun _ _ hSound' => absurd hSound' hSound

theorem straight_integrate (f : Feature) {target : IntegrationTarget}
    (hMine : mine (ctx.integrationUnit f.integrationId f.rule target)) :
    ctx.Straight mine true (ctx.integrate f.integrationId f.rule target : Run σ Unit)
      fun _ => True := by
  have hEmit : ctx.Straight mine true (ctx.emit f.integrationId
      (ctx.integrationUnit f.integrationId f.rule target).file target.declaration : Run σ Unit)
      fun _ => True :=
    .emit (d := ctx.integrationUnit f.integrationId f.rule target) hMine fun _ =>
      (f.namedBy_integrationUnit ctx target).wellNamed.exists_topLevelNames
  have hOwn : ctx.Straight mine false
      (Run.ofExcept (liftDomain (f.rule.localTypes target.scope)) : Run σ _)
      (· = f.rule.own target.scope) := by
    rw [(f.own_built target.scope).1]
    exact .ofExcept (fun _ hOk => (Except.ok.inj hOk).symm) fun _ => ⟨_, rfl⟩
  have hShared : ctx.Straight mine false
      (Run.ofExcept (liftDomain (f.rule.sharedTypes target.scope)) : Run σ _)
      (· = f.rule.shared target.scope) := by
    rw [(f.shared_built target.scope).1]
    exact .ofExcept (fun _ hOk => (Except.ok.inj hOk).symm) fun _ => ⟨_, rfl⟩
  unfold integrationUnit at hEmit
  rw [integrate]
  cases hInherited : target.inheritedFrom with
  | some ancestor =>
    rw [hInherited] at hEmit
    refine (Straight.skip _).behind fun _ _ => (Straight.pure rfl).behind ?_
    rintro _ rfl
    refine hOwn.behind ?_
    rintro _ rfl
    exact hEmit
  | none =>
    rw [hInherited] at hEmit
    refine hShared.behind ?_
    rintro _ rfl
    refine hOwn.behind ?_
    rintro _ rfl
    exact hEmit

theorem composed_integrateEach (f : Feature) {targets : List IntegrationTarget}
    (hMine : ∀ target ∈ targets, mine (ctx.integrationUnit f.integrationId f.rule target)) :
    ctx.Composed mine true
      (fun b => ((ctx.stopping b).integrateEach f.integrationId f.rule targets : Run σ Unit))
      fun _ => True := by
  induction targets with
  | nil => exact .pure trivial
  | cons target rest ih =>
    obtain ⟨hFirst, hRest⟩ := List.forall_mem_cons.mp hMine
    exact .ask (.pure trivial) (.behind (straight_integrate f hFirst) fun _ _ => ih hRest)

/-! ## Child scopes -/

theorem straight_emitChildScope {c : ScopeConfiguration} (hConfigured : c ∈ ctx.graph.scopes)
    (hMine : ∀ d : Delivery, d.generator = ViewModel.childScopesId → d.Due ctx → mine d) :
    ctx.Straight mine true (ViewModel.emitChildScope ctx c : Run σ Unit) fun _ => True := by
  unfold ViewModel.emitChildScope
  split
  · next hEnables =>
    cases hOrigin : ctx.table.find? c.scope with
    | none =>
      have hThrow : ctx.Straight mine false (throw ⟨.internal ("configured scope " ++
          c.scope.canonical ++ " is missing from the snapshot"), none⟩ : Run σ Unit)
          fun _ => True := by
        refine Straight.ofExcept (r := .error _) nofun fun hSound => ?_
        rw [hSound.graph] at hConfigured
        obtain ⟨d, hFound, _⟩ := (ScopeGraph.configures_of_mem_scopes hConfigured).declared
        rw [hOrigin] at hFound
        cases hFound
      exact hThrow.weaken nofun fun _ h => h
    | some origin =>
      obtain ⟨child, hChild, _⟩ := Naming.childScope_eq_ok c.scope
      obtain ⟨fileName, hName, _⟩ :=
        Naming.derive_eq_ok c.scope "SealantChildScopes" (by decide)
      have hDue := Delivery.Due.childScope hConfigured hEnables hOrigin hChild hName
      have hEmit : ctx.Straight mine true (ctx.emit _ _ _ : Run σ Unit) fun _ => True :=
        .emit (hMine _ rfl hDue) fun _ => hDue.wellNamed.exists_topLevelNames
      have hDerived {name : ClassName} : ctx.Straight mine false
          (Run.ofExcept (liftDomain (.ok name)) : Run σ ClassName) (· = name) :=
        .ofExcept (fun _ hOk => (Except.ok.inj hOk).symm) fun _ => ⟨_, rfl⟩
      rw [hChild, hName]
      refine hDerived.behind ?_
      rintro _ rfl
      refine (Straight.note ⟨rfl, rfl⟩).behind fun _ _ => hDerived.behind ?_
      rintro _ rfl
      exact hEmit
  · exact (Straight.pure trivial).weaken nofun fun _ h => h

omit [Store σ] in
/-- A configured scope that enables view-models has a declaration, and one file for its child. -/
theorem Sound.exists_childDeliveries (hSound : ctx.Sound) {c : ScopeConfiguration}
    (hConfigured : c ∈ ctx.graph.scopes) (hEnables : c.enables .viewModel = true) :
    ∃ origin child fileName, ctx.table.find? c.scope = some origin ∧
      Naming.childScope c.scope = .ok child ∧
      Naming.derive c.scope "SealantChildScopes" = .ok fileName ∧
      ViewModel.childDeliveries ctx c = [⟨ViewModel.childScopesId, (ctx.file c.scope.package
        fileName.simpleName).withTypes [ViewModel.childScopeType child], origin⟩] := by
  rw [hSound.graph] at hConfigured
  obtain ⟨origin, hOrigin, _⟩ := (ScopeGraph.configures_of_mem_scopes hConfigured).declared
  obtain ⟨child, hChild, _⟩ := Naming.childScope_eq_ok c.scope
  obtain ⟨fileName, hName, _⟩ := Naming.derive_eq_ok c.scope "SealantChildScopes" (by decide)
  refine ⟨origin, child, fileName, hOrigin, hChild, hName, ?_⟩
  unfold ViewModel.childDeliveries
  rw [if_pos hEnables, hOrigin, hChild, hName]

theorem composed_emitChildScopes {l : List ScopeConfiguration}
    (hConfigured : ∀ c ∈ l, c ∈ ctx.graph.scopes)
    (hMine : ∀ d : Delivery, d.generator = ViewModel.childScopesId → d.Due ctx → mine d) :
    ctx.Composed mine true
      (fun b => (ViewModel.emitChildScopes (ctx.stopping b) l : Run σ Unit)) fun _ => True := by
  induction l with
  | nil => exact .pure trivial
  | cons c rest ih =>
    obtain ⟨hFirst, hRest⟩ := List.forall_mem_cons.mp hConfigured
    exact .ask (.pure trivial) (.behind (straight_emitChildScope hFirst hMine) fun _ _ => ih hRest)

/-! ## Whole turns -/

/-- The delivery bears the name of the generator, and is due if the context is sound. -/
def Signed (ctx : Context) (id : String) (d : Delivery) : Prop :=
  d.generator = id ∧ (ctx.Sound → d.Due ctx)

theorem composed_creation (c : Creation) (hMine : ∀ d, ctx.Signed c.id d → mine d) :
    ctx.Composed mine false (fun b => (c.generator.generate (ctx.stopping b) : Run σ Unit))
      fun _ => True := by
  have hMarked : ∀ d ∈ ctx.table.annotated c.marker, d ∈ ctx.table.declarations :=
    fun d hMem => List.mem_of_mem_filter hMem
  refine (composed_contributionsAmong c.id c.marker c.feature hMarked).go.bind
    fun found hFound => composed_createEach c (fun x hMem => hMarked _ (hFound x hMem).1) ?_
  intro x hMem file hBuilt
  obtain ⟨hListed, hScope, hEnabled⟩ := hFound x hMem
  exact hMine _ ⟨rfl, fun _ => .creation hListed hScope hEnabled hBuilt⟩

theorem composed_integration (f : Feature) (hMine : ∀ d, ctx.Signed f.integrationId d → mine d) :
    ctx.Composed mine false (fun b => (f.integration.generate (ctx.stopping b) : Run σ Unit))
      fun _ => True := by
  have hTargets : ∀ b, ((ctx.stopping b).integrationTargets f.integrationId f : Run σ _) =
      ctx.integrationTargets f.integrationId f := by
    intro b
    simp only [integrationTargets, integrationCandidates_stopping, targetsAmong_stopping]
  change ctx.Composed mine false (fun b => ((ctx.stopping b).integrationTargets f.integrationId f :
    Run σ _) >>= (ctx.stopping b).integrateEach f.integrationId f.rule) fun _ => True
  simp only [hTargets]
  refine .behind (straight_integrationTargets f) fun targets hTargets => ?_
  refine composed_integrateEach f fun target hMem => hMine _ ⟨rfl, fun hSound => ?_⟩
  obtain ⟨b, hWins, rfl⟩ := hTargets hSound target hMem
  exact .integration hWins

theorem composed_childScopes (hMine : ∀ d, ctx.Signed ViewModel.childScopesId d → mine d) :
    ctx.Composed mine false
      (fun b => (ViewModel.childScopes.generate (ctx.stopping b) : Run σ Unit)) fun _ => True :=
  (composed_emitChildScopes (fun _ h => h) fun d hId hDue => hMine d ⟨hId, fun _ => hDue⟩).go

theorem composed_of_mem_builtIn {g : Generator} (hMem : g ∈ Pipeline.builtIn)
    (hMine : ∀ d, ctx.Signed g.id d → mine d) :
    ctx.Composed mine false (fun b => (g.generate (ctx.stopping b) : Run σ Unit))
      fun _ => True := by
  obtain rfl | ⟨c, rfl⟩ | ⟨f, rfl⟩ := cases_of_mem_builtIn hMem
  · exact composed_childScopes hMine
  · exact composed_creation c hMine
  · exact composed_integration f hMine

/-- The turns of built-in generators one after the other. -/
theorem composed_runGenerators {l : List Generator} (hBuiltIn : ∀ g ∈ l, g ∈ Pipeline.builtIn)
    (hMine : ∀ g ∈ l, ∀ d, ctx.Signed g.id d → mine d) :
    ctx.Composed mine true (fun b => (runGenerators (ctx.stopping b) l : Run σ Unit))
      fun _ => True := by
  induction l with
  | nil => exact .pure trivial
  | cons g rest ih =>
    obtain ⟨hFirst, hRest⟩ := List.forall_mem_cons.mp hBuiltIn
    obtain ⟨hOwn, hOthers⟩ := List.forall_mem_cons.mp hMine
    refine .ask (.note ⟨rfl, rfl⟩) ?_
    exact ((composed_of_mem_builtIn hFirst hOwn).during _).bind fun _ _ => ih hRest hOthers

theorem performs_of_mem_builtIn (ctx : Context) {g : Generator} (hMem : g ∈ Pipeline.builtIn) :
    ctx.Performs (ctx.Signed g.id) (g.generate ctx) fun _ => True :=
  (composed_of_mem_builtIn hMem fun _ hSigned => hSigned).performs ctx.failFast

end Context

end Bindery
