import Bindery.Proofs.Run.Independence

/-! # What each generator delivers

In a sound context a run that collects diagnostics has a plan for every built-in generator: the
files of all accepted contributions, the units of all winning bids, and the child scopes of all
scopes that enable them, each list in the order of its sources.
-/

namespace Bindery

open Integration Run

namespace Context

variable {ctx : Context} {α : Type} {t : SymbolTable}

theorem follows_unless_stopped (hCollect : ctx.failFast = false)
    {stopped m : Run MemoryStore α} {plans : Plan α → Prop} (h : m.Follows t plans) :
    (ctx.shouldStop >>= fun b => if b = true then stopped else m).Follows t plans :=
  (follows_goOn hCollect).behind h

/-- A step without deliveries has a single plan if its result is known. -/
theorem Performs.follows (hSound : ctx.Sound) {m : Run MemoryStore α} {a : α}
    (h : ctx.Performs (fun _ => False) m (· = a)) :
    m.Follows ctx.table (· = some (a, [])) := by
  obtain ⟨plans, hFollows, hAllows, _⟩ := h
  refine hFollows.mono fun plan hPlan => ?_
  cases plan with
  | none => exact absurd rfl ((hAllows none hPlan).sound hSound)
  | some outcome =>
    obtain ⟨b, l⟩ := outcome
    obtain ⟨rfl, hNone⟩ := (hAllows _ hPlan).made b l rfl
    rw [List.eq_nil_iff_forall_not_mem.mpr hNone]

theorem follows_emit_of_named {d : Delivery} (h : ∃ names, d.file.topLevelNames = .ok names) :
    (ctx.emit d.generator d.file d.origin).Follows t (· = some ((), [d])) := by
  obtain ⟨names, hNames⟩ := h
  have hFollows := follows_emit (t := t) ctx d
  rw [hNames] at hFollows
  exact hFollows

/-! ## Creation -/

theorem follows_contributions (hSound : ctx.Sound) (hCollect : ctx.failFast = false)
    (c : Creation) : (ctx.contributions c.id c.marker c.feature).Follows ctx.table
      (· = some (ctx.contributed c.marker c.feature, [])) := by
  have hMarked : ∀ d ∈ ctx.table.annotated c.marker, d ∈ ctx.table.declarations :=
    fun d hMem => List.mem_of_mem_filter hMem
  have hComposed : ctx.Composed (fun _ => False) true (fun b => ((ctx.stopping b).contributionsAmong
      c.id c.marker c.feature (ctx.table.annotated c.marker) : Run MemoryStore _)) fun _ => True :=
    (composed_contributionsAmong c.id c.marker c.feature hMarked).mono fun _ _ => trivial
  have hPerforms : ctx.Performs (fun _ => False) (ctx.contributions c.id c.marker c.feature)
      (· = ctx.contributed c.marker c.feature) :=
    Performs.of_yields (hComposed.performs ctx.failFast) fun s _ => ⟨_, _,
      contributionsAmong_yields hCollect c.id c.marker c.feature (ctx.table.annotated c.marker) s,
      rfl⟩
  exact hPerforms.follows hSound

theorem follows_createEach (hCollect : ctx.failFast = false) (c : Creation)
    (l : List Contribution) : (ctx.createEach c.id c.build l).Follows t
      (· = some ((), l.flatMap (ctx.deliveriesOf c.id c.build))) := by
  induction l with
  | nil => exact follows_pure ()
  | cons x rest ih =>
    refine follows_unless_stopped hCollect ?_
    rw [List.flatMap_cons, deliveriesOf]
    cases hBuild : c.build ctx x with
    | ok file =>
      have hEmit : (ctx.emit c.id file x.declaration).Follows t
          (· = some ((), [⟨c.id, file, x.declaration⟩])) :=
        follows_emit_of_named (d := ⟨c.id, file, x.declaration⟩)
          (Creation.namedBy_of_build hBuild).wellNamed.exists_topLevelNames
      exact hEmit.bind_single ih
    | error faults =>
      have hNotFatal : ∀ fault ∈ faults, fault.isFatal = false :=
        fun fault hMem => (names_of_build hBuild fault hMem).not_fatal
      exact (follows_diagnoseAll hNotFatal c.id).behind ih

theorem delivers_creation (hSound : ctx.Sound) (hCollect : ctx.failFast = false) (c : Creation) :
    ctx.Delivers c.generator
      ((ctx.contributed c.marker c.feature).flatMap (ctx.deliveriesOf c.id c.build)) where
  follows :=
    (follows_contributions hSound hCollect c).behind (follows_createEach hCollect c _)
  signed := (creationAccount_signedBy ctx c.id c.feature c.marker c.build).deliveries

/-! ## Integration -/

theorem follows_integrate (f : Feature) (target : IntegrationTarget) :
    (ctx.integrate f.integrationId f.rule target).Follows t
      (· = some ((), [ctx.integrationUnit f.integrationId f.rule target])) := by
  have hEmit : (ctx.emit f.integrationId (ctx.integrationUnit f.integrationId f.rule target).file
      target.declaration).Follows t
      (· = some ((), [ctx.integrationUnit f.integrationId f.rule target])) :=
    follows_emit_of_named (d := ctx.integrationUnit f.integrationId f.rule target)
      (f.namedBy_integrationUnit ctx target).wellNamed.exists_topLevelNames
  have hOwn : (Run.ofExcept (liftDomain (f.rule.localTypes target.scope)) :
      Run MemoryStore _).Follows t (· = some (f.rule.own target.scope, [])) := by
    rw [(f.own_built target.scope).1]
    exact follows_ofExcept _
  have hShared : (Run.ofExcept (liftDomain (f.rule.sharedTypes target.scope)) :
      Run MemoryStore _).Follows t (· = some (f.rule.shared target.scope, [])) := by
    rw [(f.shared_built target.scope).1]
    exact follows_ofExcept _
  unfold integrationUnit at hEmit ⊢
  rw [integrate]
  cases hInherited : target.inheritedFrom with
  | some ancestor =>
    rw [hInherited] at hEmit
    exact (follows_skip _).behind ((follows_pure _).behind (hOwn.behind hEmit))
  | none =>
    rw [hInherited] at hEmit
    exact hShared.behind (hOwn.behind hEmit)

theorem follows_integrateEach (hCollect : ctx.failFast = false) (f : Feature)
    (targets : List IntegrationTarget) : (ctx.integrateEach f.integrationId f.rule targets).Follows
      t (· = some ((), targets.map (ctx.integrationUnit f.integrationId f.rule))) := by
  induction targets with
  | nil => exact follows_pure ()
  | cons target rest ih =>
    exact follows_unless_stopped hCollect ((follows_integrate f target).bind_single ih)

theorem delivers_integration (hSound : ctx.Sound) (hCollect : ctx.failFast = false) (f : Feature) :
    ∃ winners beaten, Selection ctx.table ctx.graph f winners beaten ∧
      ctx.Delivers f.integration
        ((winners.map (ctx.targetOf f)).map (ctx.integrationUnit f.integrationId f.rule)) := by
  obtain ⟨winners, beaten, hSelection, hYields⟩ :=
    integrationTargets_selects (σ := MemoryStore) hSound.forest f.integrationId f
  have hStraight : ctx.Straight (fun _ => False)
      true (ctx.integrationTargets f.integrationId f : Run MemoryStore _) fun _ => True :=
    (straight_integrationTargets f).weaken id fun _ _ => trivial
  have hPerforms : ctx.Performs (fun _ => False) (ctx.integrationTargets f.integrationId f)
      (· = winners.map (ctx.targetOf f)) :=
    Performs.of_yields (hStraight.performs ctx.failFast) fun s hCache =>
      ⟨_, _, hYields s hCache, rfl⟩
  have hTargets := hPerforms.follows hSound
  refine ⟨winners, beaten, hSelection, hTargets.behind (follows_integrateEach hCollect f _), ?_⟩
  intro d hMem
  obtain ⟨_, _, rfl⟩ := List.mem_map.mp hMem
  rfl

/-! ## Child scopes -/

theorem follows_emitChildScope (hSound : ctx.Sound) {c : ScopeConfiguration}
    (hConfigured : c ∈ ctx.graph.scopes) : (ViewModel.emitChildScope ctx c).Follows t
      (· = some ((), ViewModel.childDeliveries ctx c)) := by
  unfold ViewModel.emitChildScope
  split
  · next hEnables =>
    obtain ⟨origin, child, fileName, hOrigin, hChild, hName, hMade⟩ :=
      hSound.exists_childDeliveries hConfigured hEnables
    rw [hMade, hOrigin, hChild, hName]
    have hEmit : (ctx.emit ViewModel.childScopesId ((ctx.file c.scope.package
        fileName.simpleName).withTypes [ViewModel.childScopeType child]) origin).Follows t _ :=
      follows_emit_of_named (d := ⟨ViewModel.childScopesId, _, origin⟩)
        (ViewModel.namedBy_childScope ctx hChild hName).wellNamed.exists_topLevelNames
    exact (follows_ofExcept _).behind
      ((follows_note _).behind ((follows_ofExcept _).behind hEmit))
  · next hOff =>
    rw [ViewModel.childDeliveries, if_neg hOff]
    exact follows_pure ()

theorem follows_emitChildScopes (hSound : ctx.Sound) (hCollect : ctx.failFast = false)
    {l : List ScopeConfiguration} (hConfigured : ∀ c ∈ l, c ∈ ctx.graph.scopes) :
    (ViewModel.emitChildScopes ctx l).Follows t
      (· = some ((), l.flatMap (ViewModel.childDeliveries ctx))) := by
  induction l with
  | nil => exact follows_pure ()
  | cons c rest ih =>
    obtain ⟨hFirst, hRest⟩ := List.forall_mem_cons.mp hConfigured
    exact follows_unless_stopped hCollect
      ((follows_emitChildScope hSound hFirst).bind_single (ih hRest))

theorem delivers_childScopes (hSound : ctx.Sound) (hCollect : ctx.failFast = false) :
    ctx.Delivers ViewModel.childScopes
      (ctx.graph.scopes.flatMap (ViewModel.childDeliveries ctx)) where
  follows := follows_emitChildScopes hSound hCollect fun _ h => h
  signed d hMem := by
    obtain ⟨c, _, hMade⟩ := List.mem_flatMap.mp hMem
    exact ViewModel.signed_of_mem_childDeliveries hMade

end Context

end Bindery
