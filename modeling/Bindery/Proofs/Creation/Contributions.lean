import Bindery.Proofs.Run.Recording
import Bindery.Proofs.Scope.Resolution

/-! # Contributions and the files made of them

A run that collects diagnostics looks at every declaration with a marker. Selecting contributions
never fails: what cannot be resolved is recorded, and what is not enabled is passed over. Making the
files may fail, so their account is read off a run that succeeded.
-/

namespace Bindery.Context

open Account Run

variable {σ : Type} [Store σ] {ctx : Context}

/-- The contribution that a marked declaration makes, if its scope enables the feature. -/
def contribution? (ctx : Context) (marker : ClassName) (f : Feature) (d : Declaration) :
    Option Contribution :=
  match Resolution.scopeOf ctx.table d [marker] with
  | .ok scope => if ctx.graph.enabled scope f then some ⟨d, scope⟩ else none
  | .error _ => none

/-- The fault of a marked declaration whose scope cannot be resolved. -/
def scopeFault? (ctx : Context) (marker : ClassName) (d : Declaration) : Option Fault :=
  match Resolution.scopeOf ctx.table d [marker] with
  | .ok _ => none
  | .error fault => some fault

theorem contributionsAmong_yields (hCollect : ctx.failFast = false) (generator : String)
    (marker : ClassName) (f : Feature) (l : List Declaration) (s : Session σ) :
    (ctx.contributionsAmong generator marker f l).Yields s
      (l.filterMap (ctx.contribution? marker f))
      { diagnostics :=
          (l.filterMap (ctx.scopeFault? marker)).map (ctx.diagnosticOf generator) } := by
  induction l generalizing s with
  | nil => exact yields_pure s []
  | cons d rest ih =>
    rw [contributionsAmong, List.filterMap_cons, List.filterMap_cons]
    refine (yields_shouldStop hCollect s).bind (fun s₁ => ?_) (empty_append _)
    rw [if_neg Bool.false_ne_true]
    cases hScope : Resolution.scopeOf ctx.table d [marker] with
    | error fault =>
      have hNotFatal := (Resolution.names_of_scopeOf hScope).not_fatal
      have hDropped : ctx.contribution? marker f d = none := by simp [contribution?, hScope]
      have hFault : ctx.scopeFault? marker d = some fault := by simp [scopeFault?, hScope]
      rw [hDropped, hFault]
      exact (diagnose_yields hNotFatal generator s₁).bind ih
    | ok scope =>
      have hFault : ctx.scopeFault? marker d = none := by simp [scopeFault?, hScope]
      rw [hFault]
      cases hEnabled : ctx.graph.enabled scope f with
      | true =>
        have hFound : ctx.contribution? marker f d = some ⟨d, scope⟩ := by
          simp [contribution?, hScope, hEnabled]
        simp only [hFound, hEnabled, if_true]
        exact (ih s₁).bind (fun s₂ => yields_pure s₂ _) (append_empty _)
      | false =>
        have hPassed : ctx.contribution? marker f d = none := by
          simp [contribution?, hScope, hEnabled]
        simp only [hPassed, hEnabled, Bool.false_eq_true, if_false]
        exact (yields_remark s₁ _ _ _).bind ih (empty_append _)

/-- The files made of a contribution: one, or none if it is refused. -/
def deliveriesOf (ctx : Context) (generator : String)
    (build : Context → Contribution → Except (List Fault) Source.File) (c : Contribution) :
    List Delivery :=
  match build ctx c with
  | .ok file => [⟨generator, file, c.declaration⟩]
  | .error _ => []

/-- The faults for which a contribution is refused. -/
def refusals (ctx : Context) (build : Context → Contribution → Except (List Fault) Source.File)
    (c : Contribution) : List Fault :=
  match build ctx c with
  | .ok _ => []
  | .error faults => faults

theorem grows_of_createEach (hCollect : ctx.failFast = false) {generator : String}
    {build : Context → Contribution → Except (List Fault) Source.File} {l : List Contribution}
    {s s' : Session σ} {u : Unit} (h : (ctx.createEach generator build l).Gives s u s') :
    s.Grows { deliveries := l.flatMap (ctx.deliveriesOf generator build)
              diagnostics := (l.flatMap (ctx.refusals build)).map (ctx.diagnosticOf generator) }
      s' := by
  induction l generalizing s with
  | nil =>
    obtain ⟨_, rfl⟩ := gives_pure.mp h
    exact .refl s
  | cons c rest ih =>
    rw [createEach, gives_unless_stopped hCollect] at h
    obtain ⟨s₁, hGrows, hRest⟩ : ∃ s₁, s.Grows
        { deliveries := ctx.deliveriesOf generator build c
          diagnostics := (ctx.refusals build c).map (ctx.diagnosticOf generator) } s₁ ∧
        (ctx.createEach generator build rest).Gives s₁ u s' := by
      unfold deliveriesOf refusals
      cases hBuild : build ctx c with
      | ok file =>
        rw [hBuild] at h
        obtain ⟨_, s₁, hFirst, hRest⟩ := gives_bind.mp h
        exact ⟨s₁, grows_of_emit hFirst, hRest⟩
      | error faults =>
        rw [hBuild] at h
        obtain ⟨_, s₁, hFirst, hRest⟩ := gives_bind.mp h
        exact ⟨s₁, grows_of_diagnoseAll hFirst, hRest⟩
    have hTotal := hGrows.trans (ih hRest)
    rw [List.flatMap_cons, List.flatMap_cons, List.map_append]
    exact hTotal

/-! ## Creation generators -/

/-- The contributions that declarations of the table make with a marker. -/
def contributed (ctx : Context) (marker : ClassName) (f : Feature) : List Contribution :=
  (ctx.table.annotated marker).filterMap (ctx.contribution? marker f)

/-- The scopes that cannot be resolved are recorded first, and then what is refused. -/
def creationAccount (ctx : Context) (generator : String) (f : Feature) (marker : ClassName)
    (build : Context → Contribution → Except (List Fault) Source.File) : Account where
  deliveries := (ctx.contributed marker f).flatMap (ctx.deliveriesOf generator build)
  diagnostics :=
    ((ctx.table.annotated marker).filterMap (ctx.scopeFault? marker)).map
      (ctx.diagnosticOf generator) ++
    ((ctx.contributed marker f).flatMap (ctx.refusals build)).map (ctx.diagnosticOf generator)

theorem grows_of_creation (hCollect : ctx.failFast = false) {generator : String} {f : Feature}
    {marker : ClassName} {build : Context → Contribution → Except (List Fault) Source.File}
    {s s' : Session σ} {u : Unit}
    (h : ((Generator.creation generator f marker build).generate ctx).Gives s u s') :
    s.Grows (ctx.creationAccount generator f marker build) s' := by
  obtain ⟨found, s₁, hFound, hCreated⟩ := gives_bind.mp h
  obtain ⟨rfl, hSelected⟩ := (contributionsAmong_yields hCollect generator marker f
    (ctx.table.annotated marker) s).of_gives hFound
  exact hSelected.trans (grows_of_createEach hCollect hCreated)

theorem creationAccount_signedBy (ctx : Context) (generator : String) (f : Feature)
    (marker : ClassName) (build : Context → Contribution → Except (List Fault) Source.File) :
    (ctx.creationAccount generator f marker build).SignedBy (· = generator) where
  deliveries d hMem := by
    obtain ⟨c, _, hDelivery⟩ := List.mem_flatMap.mp hMem
    unfold deliveriesOf at hDelivery
    split at hDelivery
    · rw [List.mem_singleton.mp hDelivery]
    · cases hDelivery
  diagnostics d hMem := by
    rcases List.mem_append.mp hMem with hMem | hMem
    · obtain ⟨_, _, rfl⟩ := List.mem_map.mp hMem
      rfl
    · obtain ⟨_, _, rfl⟩ := List.mem_map.mp hMem
      rfl
  skips := by simp [creationAccount]

end Bindery.Context
