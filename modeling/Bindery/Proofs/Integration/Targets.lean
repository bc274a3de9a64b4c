import Bindery.Declaration.Sample
import Bindery.Emission.Memory
import Bindery.Proofs.Integration.Selection
import Bindery.Proofs.Run.Recording
import Bindery.Proofs.Scope.Validation

/-! # Targets of a feature

A generator that asks for the targets of a feature gets one for each winning bid, and the bids that
are beaten are left out with a skip. The candidates behind the bids are resolved once in a run. What
a session keeps of them is what any generator would resolve, so it does not matter who asks first.
-/

namespace Bindery

open Account Integration Run

/-- Candidates kept by the session are those of the table. -/
def Session.CacheValid {σ : Type} (t : SymbolTable) (s : Session σ) : Prop :=
  ∀ found, s.candidates = some found → found = Integration.candidates t

/-- Candidates resolved on the way are those of the table. -/
def Account.CacheValid (t : SymbolTable) (a : Account) : Prop :=
  ∀ found, a.candidates = some found → found = Integration.candidates t

theorem Account.CacheValid.append {t : SymbolTable} {a b : Account} (ha : a.CacheValid t)
    (hb : b.CacheValid t) : (a ++ b).CacheValid t := by
  intro found hFound
  rcases Option.or_eq_some_iff.mp hFound with hNew | ⟨_, hOld⟩
  · exact hb found hNew
  · exact ha found hOld

theorem Session.CacheValid.of_grows {σ : Type} [Store σ] {t : SymbolTable} {a : Account}
    {s s' : Session σ} (h : s.CacheValid t) (ha : a.CacheValid t) (hGrows : s.Grows a s') :
    s'.CacheValid t := by
  intro found hFound
  rw [hGrows.candidates, Option.or_eq_some_iff] at hFound
  rcases hFound with hNew | ⟨_, hOld⟩
  · exact ha found hNew
  · exact h found hOld

namespace Context

variable {σ : Type} [Store σ] {ctx : Context}

/-- The ancestor that provides what is shared, and none if the walk to it fails. -/
def inheritedFrom (ctx : Context) (s : ClassName) (f : Feature) : Option ClassName :=
  match ctx.graph.nearestEnabling s f with
  | .ok ancestor => ancestor
  | .error _ => none

theorem nearestEnabling_eq_ok (hForest : ctx.graph.validate = .ok ()) (s : ClassName)
    (f : Feature) : ctx.graph.nearestEnabling s f = .ok (ctx.inheritedFrom s f) := by
  obtain ⟨chain, hAbove⟩ := ScopeGraph.exists_chainAbove hForest s
  unfold inheritedFrom
  rw [hAbove.nearestEnabling]

/-- The target of a winning bid. -/
def targetOf (ctx : Context) (f : Feature) (b : Bid) : IntegrationTarget where
  declaration := b.declaration
  scope := b.scope
  inheritedFrom := ctx.inheritedFrom b.scope f

/-- The skip of a beaten bid, which names the declaration of the winner. -/
def duplicateSkip (generator : String) (beaten : Bid × Bid) : Skip where
  generator := generator
  scope := beaten.1.scope
  declaration := beaten.1.declaration.name
  reason := .duplicateScope beaten.2.declaration.name

/-- The names kept for scopes are those of the winners so far. -/
theorem targetsAmong_yields (hForest : ctx.graph.validate = .ok ()) (generator : String)
    (f : Feature) (l held : List Bid) {kept : OrderedMap ClassName ClassName}
    (hKept : ∀ s, kept.get? s =
      (held.find? fun w => decide (w.scope = s)).map (·.declaration.name)) :
    ∃ winners beaten, Scan ctx.graph f held l winners beaten ∧ ∀ s : Session σ,
      (ctx.targetsAmong generator f kept (l.map Bid.candidate)).Yields s
        (winners.map (ctx.targetOf f)) { skips := beaten.map (duplicateSkip generator) } := by
  induction l generalizing held kept with
  | nil => exact ⟨[], [], .done held, fun s => yields_pure s []⟩
  | cons b rest ih =>
    cases hEnabled : ctx.graph.enabled b.scope f with
    | false =>
      obtain ⟨winners, beaten, hScan, hYields⟩ := ih held hKept
      refine ⟨winners, beaten, .disabled hEnabled hScan, fun s => ?_⟩
      simpa [targetsAmong, Bid.candidate, hEnabled] using hYields s
    | true =>
      cases hFound : held.find? fun w => decide (w.scope = b.scope) with
      | some w =>
        have hHeld := List.mem_of_find?_eq_some hFound
        have hSame : w.scope = b.scope := by simpa using List.find?_some hFound
        have hFirst : kept.get? b.scope = some w.declaration.name := by
          rw [hKept, hFound]
          rfl
        obtain ⟨winners, beaten, hScan, hYields⟩ := ih held hKept
        refine ⟨winners, (b, w) :: beaten, .loses hEnabled hHeld hSame hScan, fun s => ?_⟩
        rw [List.map_cons, targetsAmong]
        simp only [Bid.candidate, hEnabled, if_true, hFirst]
        exact (skip_yields (duplicateSkip generator (b, w)) s).bind hYields
      | none =>
        have hFree : ∀ w ∈ held, w.scope ≠ b.scope := by simpa using hFound
        have hFirst : kept.get? b.scope = none := by
          rw [hKept, hFound]
          rfl
        have hKept' : ∀ s, (kept.insert b.scope b.declaration.name).get? s =
            ((b :: held).find? fun w => decide (w.scope = s)).map (·.declaration.name) := by
          intro s
          rw [OrderedMap.get?_insert, List.find?_cons]
          by_cases hScope : b.scope = s
          · simp [hScope]
          · simpa [hScope] using hKept s
        obtain ⟨winners, beaten, hScan, hYields⟩ := ih (b :: held) hKept'
        refine ⟨b :: winners, beaten, .wins hEnabled hFree hScan, fun s => ?_⟩
        rw [List.map_cons, targetsAmong]
        simp only [Bid.candidate, hEnabled, if_true, hFirst]
        exact (yields_ofExcept (nearestEnabling_eq_ok hForest b.scope f) s).bind
          (fun s₁ => (hYields s₁).bind fun s₂ => yields_pure s₂ _) (by simp)

/-- What a generator that asks for the candidates adds to the account of the run. -/
def resolving (ctx : Context) (generator : String) (s : Session σ) : Account :=
  match s.candidates with
  | some _ => {}
  | none =>
    { diagnostics := (faults ctx.table).map (ctx.diagnosticOf generator)
      candidates := some (candidates ctx.table) }

omit [Store σ] in
theorem resolving_cacheValid (ctx : Context) (generator : String) (s : Session σ) :
    (ctx.resolving generator s).CacheValid ctx.table := by
  intro found hFound
  unfold resolving at hFound
  split at hFound
  · cases hFound
  · exact (Option.some.inj hFound).symm

theorem integrationCandidates_yields (generator : String) {s : Session σ}
    (hCache : s.CacheValid ctx.table) : (ctx.integrationCandidates generator).Yields s
      (candidates ctx.table) (ctx.resolving generator s) := by
  refine yields_get_bind ?_
  unfold resolving
  cases hCached : s.candidates with
  | some found =>
    obtain rfl := hCache found hCached
    exact yields_pure s _
  | none =>
    have hKeep : (modify fun s => { s with candidates := some (candidates ctx.table) } :
        Run σ Unit).Yields s () { candidates := some (candidates ctx.table) } :=
      ⟨_, gives_modify.mpr rfl, .nil _, by simp, by simp, by simp, rfl⟩
    have hRecord (s₁ : Session σ) : (do
        ctx.diagnoseAll generator (faults ctx.table)
        pure (candidates ctx.table)).Yields s₁ (candidates ctx.table)
        { diagnostics := (faults ctx.table).map (ctx.diagnosticOf generator) } :=
      (diagnoseAll_yields generator not_fatal_of_mem_faults s₁).bind
        (fun s₂ => yields_pure s₂ _) (append_empty _)
    exact hKeep.bind hRecord

/-- Which bids win does not depend on the session. -/
theorem integrationTargets_selects (hForest : ctx.graph.validate = .ok ()) (generator : String)
    (f : Feature) : ∃ winners beaten, Selection ctx.table ctx.graph f winners beaten ∧
      ∀ s : Session σ, s.CacheValid ctx.table →
        (ctx.integrationTargets generator f).Yields s (winners.map (ctx.targetOf f))
          (ctx.resolving generator s ++ { skips := beaten.map (duplicateSkip generator) }) := by
  have hKept (s : ClassName) : (OrderedMap.empty : OrderedMap ClassName ClassName).get? s =
      (([] : List Bid).find? fun w => decide (w.scope = s)).map (·.declaration.name) := rfl
  obtain ⟨winners, beaten, hScan, hYields⟩ :=
    targetsAmong_yields (σ := σ) hForest generator f (bids ctx.table) [] hKept
  refine ⟨winners, beaten, hScan.selection, fun s hCache => ?_⟩
  rw [← candidates_eq_map_bids] at hYields
  exact (integrationCandidates_yields generator hCache).bind hYields

theorem integrationTargets_yields (hForest : ctx.graph.validate = .ok ()) (generator : String)
    (f : Feature) {s : Session σ} (hCache : s.CacheValid ctx.table) :
    ∃ winners beaten, Selection ctx.table ctx.graph f winners beaten ∧
      (ctx.integrationTargets generator f).Yields s (winners.map (ctx.targetOf f))
        (ctx.resolving generator s ++ { skips := beaten.map (duplicateSkip generator) }) := by
  obtain ⟨winners, beaten, hSelection, hYields⟩ :=
    integrationTargets_selects (σ := σ) hForest generator f
  exact ⟨winners, beaten, hSelection, hYields s hCache⟩

end Context

/-! ## Two components of one scope -/

namespace Sample

def appScope : ClassName where
  package := "com.example"
  simpleNames := ["AppScope"]

def mainComponent : ClassName where
  package := "com.example"
  simpleNames := ["MainComponent"]

def testComponent : ClassName where
  package := "com.example"
  simpleNames := ["TestComponent"]

/-- Two components that are merged for one scope. -/
def rivals : SymbolTable :=
  .ofList [scope appScope .all none, component testComponent appScope,
    component mainComponent appScope]

def rivalsContext : Context where
  table := rivals
  graph := (ScopeGraph.build rivals).1
  header := {}

end Sample

end Bindery
