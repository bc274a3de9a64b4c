import Bindery.Proofs.Run.FailFast

/-! # Watching a store

A watched store keeps the list of the units that it has taken beside the store itself. A run into
the watched store is the run into the store: it has the same result, the same notes, and it leaves
the same store behind. What holds of the units of a watched run therefore holds whatever a store
makes of its units. The list is there after a failure too, and then it has the units that were taken
before.
-/

namespace Bindery

open Integration Run

/-- A store with the units that it has taken, in the order in which it took them. -/
structure Watched (σ : Type) where
  store : σ
  taken : List GeneratedUnit

namespace Watched

/-- A store that is watched from now on. -/
def start {σ : Type} (store : σ) : Watched σ := ⟨store, []⟩

instance {σ : Type} [Store σ] : Store (Watched σ) where
  emit w u :=
    let outcome := Store.emit w.store u
    ⟨outcome.result,
      ⟨outcome.store, if outcome.result.isOk then w.taken ++ [u] else w.taken⟩, outcome.notes⟩
  finish w :=
    let outcome := Store.finish w.store
    ⟨outcome.result, ⟨outcome.store, w.taken⟩, outcome.notes⟩

end Watched

/-- The session without the list of units. -/
def Session.unwatched {σ : Type} (s : Session (Watched σ)) : Session σ where
  store := s.store.store
  names := s.names
  journal := s.journal
  candidates := s.candidates
  notes := s.notes

/-! ## Watching changes nothing -/

namespace Run

variable {σ α β : Type}

/-- The first step is the second one with the store watched. -/
def Watches (m' : Run (Watched σ) α) (m : Run σ α) : Prop :=
  ∀ s, m.outcome s.unwatched = ((m'.outcome s).1, (m'.outcome s).2.unwatched)

theorem watches_pure (a : α) : (pure a : Run (Watched σ) α).Watches (pure a) := fun _ => rfl

theorem watches_ofExcept (r : Except Fault α) :
    (Run.ofExcept r : Run (Watched σ) α).Watches (Run.ofExcept r) := fun _ => rfl

theorem Watches.bind {m' : Run (Watched σ) α} {m : Run σ α} {f' : α → Run (Watched σ) β}
    {f : α → Run σ β} (h : m'.Watches m) (hThen : ∀ a, (f' a).Watches (f a)) :
    (m' >>= f').Watches (m >>= f) := by
  intro s
  rw [outcome_bind, outcome_bind, h s]
  cases m'.outcome s with
  | mk result s₁ =>
    cases result with
    | ok a => exact hThen a s₁
    | error fault => rfl

theorem watches_get_bind {f' : Session (Watched σ) → Run (Watched σ) α} {f : Session σ → Run σ α}
    (h : ∀ s, (f' s).Watches (f s.unwatched)) : (get >>= f').Watches (get >>= f) :=
  fun s => h s s

theorem watches_modify {f' : Session (Watched σ) → Session (Watched σ)}
    {f : Session σ → Session σ} (h : ∀ s, f s.unwatched = (f' s).unwatched) :
    (modify f' : Run (Watched σ) PUnit).Watches (modify f) := by
  intro s
  exact congrArg (Prod.mk _) (h s)

theorem watches_note (n : Note) : (note n : Run (Watched σ) Unit).Watches (note n) :=
  watches_modify fun _ => rfl

theorem Watches.during {m' : Run (Watched σ) α} {m : Run σ α} (h : m'.Watches m)
    (stretch : Stretch) : (during stretch m').Watches (during stretch m) := by
  intro s
  rw [outcome_during, outcome_during, h s]
  rfl

theorem watches_claimAll (c : Claim) (names : List ClassName) :
    (claimAll c names : Run (Watched σ) Unit).Watches (claimAll c names) := by
  induction names with
  | nil => exact watches_pure ()
  | cons name rest ih =>
    refine watches_get_bind fun s => (watches_ofExcept _).bind fun names => ?_
    have hSet : (set { s with names } : Run (Watched σ) PUnit).Watches
        (set { s.unwatched with names }) := fun _ => rfl
    exact hSet.bind fun _ => ih

variable [Store σ]

theorem watches_keep (u : GeneratedUnit) : (keep u : Run (Watched σ) Unit).Watches (keep u) := by
  refine watches_get_bind fun s => ?_
  have hSet : (set { s with
      store := (Store.emit s.store u).store
      notes := s.notes ++ (Store.emit s.store u).notes } : Run (Watched σ) PUnit).Watches
      (set { s.unwatched with
        store := (Store.emit s.unwatched.store u).store
        notes := s.unwatched.notes ++ (Store.emit s.unwatched.store u).notes }) := fun _ => rfl
  exact hSet.bind fun _ => watches_ofExcept _

theorem watches_finish : (finish : Run (Watched σ) Unit).Watches finish := by
  refine watches_get_bind fun s => ?_
  have hSet : (set { s with
      store := (Store.finish s.store).store
      notes := s.notes ++ (Store.finish s.store).notes } : Run (Watched σ) PUnit).Watches
      (set { s.unwatched with
        store := (Store.finish s.unwatched.store).store
        notes := s.unwatched.notes ++ (Store.finish s.unwatched.store).notes }) := fun _ => rfl
  exact hSet.bind fun _ => watches_ofExcept _

end Run

namespace Context

variable {σ : Type} (ctx : Context)

theorem watches_diagnose (id : String) (fault : Fault) :
    (ctx.diagnose id fault : Run (Watched σ) Unit).Watches (ctx.diagnose id fault) := by
  unfold diagnose
  cases fault.isFatal with
  | true => exact fun _ => rfl
  | false => exact (watches_note _).bind fun _ => watches_modify fun _ => rfl

theorem watches_diagnoseAll (id : String) (faults : List Fault) :
    (ctx.diagnoseAll id faults : Run (Watched σ) Unit).Watches (ctx.diagnoseAll id faults) := by
  induction faults with
  | nil => exact watches_pure ()
  | cons fault rest ih => exact (ctx.watches_diagnose id fault).bind fun _ => ih

theorem watches_skip (k : Skip) : (ctx.skip k : Run (Watched σ) Unit).Watches (ctx.skip k) :=
  (watches_note _).bind fun _ => watches_modify fun _ => rfl

theorem watches_shouldStop : (ctx.shouldStop : Run (Watched σ) Bool).Watches ctx.shouldStop :=
  watches_get_bind fun _ => watches_pure _

theorem watches_unless_stopped {α : Type} {stopped' m' : Run (Watched σ) α} {stopped m : Run σ α}
    (hStopped : stopped'.Watches stopped) (h : m'.Watches m) :
    (ctx.shouldStop >>= fun stop => if stop = true then stopped' else m').Watches
      (ctx.shouldStop >>= fun stop => if stop = true then stopped else m) := by
  refine ctx.watches_shouldStop.bind fun stop => ?_
  cases stop with
  | true => exact hStopped
  | false => exact h

theorem watches_contributionsAmong (id : String) (marker : ClassName) (f : Feature)
    (l : List Declaration) : (ctx.contributionsAmong id marker f l :
      Run (Watched σ) _).Watches (ctx.contributionsAmong id marker f l) := by
  induction l with
  | nil => exact watches_pure _
  | cons d rest ih =>
    refine ctx.watches_unless_stopped (watches_pure _) ?_
    cases Resolution.scopeOf ctx.table d [marker] with
    | error fault => exact (ctx.watches_diagnose id fault).bind fun _ => ih
    | ok scope =>
      cases hEnabled : ctx.graph.enabled scope f with
      | true =>
        simp only [hEnabled, if_true]
        exact ih.bind fun _ => watches_pure _
      | false =>
        simp only [hEnabled, Bool.false_eq_true, if_false]
        exact (watches_note _).bind fun _ => ih

theorem watches_integrationCandidates (id : String) :
    (ctx.integrationCandidates id : Run (Watched σ) _).Watches (ctx.integrationCandidates id) := by
  refine watches_get_bind fun s => ?_
  have hCached : s.unwatched.candidates = s.candidates := rfl
  rw [hCached]
  cases s.candidates with
  | some found => exact watches_pure found
  | none =>
    have hKeep : (modify fun s => { s with candidates := some (candidates ctx.table) } :
        Run (Watched σ) PUnit).Watches
        (modify fun s => { s with candidates := some (candidates ctx.table) }) :=
      watches_modify fun _ => rfl
    exact hKeep.bind fun _ => (ctx.watches_diagnoseAll id _).bind fun _ => watches_pure _

theorem watches_targetsAmong (id : String) (f : Feature) (kept : OrderedMap ClassName ClassName)
    (l : List Candidate) : (ctx.targetsAmong id f kept l : Run (Watched σ) _).Watches
      (ctx.targetsAmong id f kept l) := by
  induction l generalizing kept with
  | nil => exact watches_pure _
  | cons c rest ih =>
    unfold targetsAmong
    split
    · cases kept.get? c.scope with
      | some first => exact (ctx.watches_skip _).bind fun _ => ih kept
      | none =>
        exact (watches_ofExcept _).bind fun _ => (ih _).bind fun _ => watches_pure _
    · exact ih kept

variable [Store σ]

theorem watches_emit (id : String) (file : Source.File) (origin : Declaration) :
    (ctx.emit id file origin : Run (Watched σ) Unit).Watches (ctx.emit id file origin) :=
  (watches_ofExcept _).bind fun names => (watches_claimAll _ names).bind fun _ =>
    (watches_keep _).bind fun _ => (watches_note _).bind fun _ => watches_modify fun _ => rfl

theorem watches_createEach (id : String)
    (build : Context → Contribution → Except (List Fault) Source.File) (l : List Contribution) :
    (ctx.createEach id build l : Run (Watched σ) Unit).Watches (ctx.createEach id build l) := by
  induction l with
  | nil => exact watches_pure ()
  | cons c rest ih =>
    refine ctx.watches_unless_stopped (watches_pure ()) ?_
    cases build ctx c with
    | ok file => exact (ctx.watches_emit id file c.declaration).bind fun _ => ih
    | error faults => exact (ctx.watches_diagnoseAll id faults).bind fun _ => ih

theorem watches_integrate (id : String) (rule : Rule) (target : IntegrationTarget) :
    (ctx.integrate id rule target : Run (Watched σ) Unit).Watches
      (ctx.integrate id rule target) := by
  unfold integrate
  cases target.inheritedFrom with
  | some ancestor =>
    exact (ctx.watches_skip _).bind fun _ => (watches_pure _).bind fun _ =>
      (watches_ofExcept _).bind fun _ => ctx.watches_emit _ _ _
  | none =>
    exact (watches_ofExcept _).bind fun _ => (watches_ofExcept _).bind fun _ =>
      ctx.watches_emit _ _ _

theorem watches_integrateEach (id : String) (rule : Rule) (targets : List IntegrationTarget) :
    (ctx.integrateEach id rule targets : Run (Watched σ) Unit).Watches
      (ctx.integrateEach id rule targets) := by
  induction targets with
  | nil => exact watches_pure ()
  | cons target rest ih =>
    exact ctx.watches_unless_stopped (watches_pure ())
      ((ctx.watches_integrate id rule target).bind fun _ => ih)

theorem watches_emitChildScope (c : ScopeConfiguration) :
    (ViewModel.emitChildScope ctx c : Run (Watched σ) Unit).Watches
      (ViewModel.emitChildScope ctx c) := by
  unfold ViewModel.emitChildScope
  split
  · cases ctx.table.find? c.scope with
    | none => exact fun _ => rfl
    | some origin =>
      exact (watches_ofExcept _).bind fun _ => (watches_note _).bind fun _ =>
        (watches_ofExcept _).bind fun _ => ctx.watches_emit _ _ _
  · exact watches_pure ()

theorem watches_emitChildScopes (l : List ScopeConfiguration) :
    (ViewModel.emitChildScopes ctx l : Run (Watched σ) Unit).Watches
      (ViewModel.emitChildScopes ctx l) := by
  induction l with
  | nil => exact watches_pure ()
  | cons c rest ih =>
    exact ctx.watches_unless_stopped (watches_pure ())
      ((ctx.watches_emitChildScope c).bind fun _ => ih)

theorem watches_of_mem_builtIn {g : Generator} (hMem : g ∈ Pipeline.builtIn) :
    (g.generate ctx : Run (Watched σ) Unit).Watches (g.generate ctx) := by
  obtain rfl | ⟨c, rfl⟩ | ⟨f, rfl⟩ := cases_of_mem_builtIn hMem
  · exact ctx.watches_emitChildScopes _
  · exact (ctx.watches_contributionsAmong _ _ _ _).bind fun found =>
      ctx.watches_createEach _ _ found
  · exact ((ctx.watches_integrationCandidates _).bind fun found =>
      ctx.watches_targetsAmong _ _ _ found).bind fun targets =>
        ctx.watches_integrateEach _ _ targets

theorem watches_runGenerators {l : List Generator} (hBuiltIn : ∀ g ∈ l, g ∈ Pipeline.builtIn) :
    (runGenerators ctx l : Run (Watched σ) Unit).Watches (runGenerators ctx l) := by
  induction l with
  | nil => exact watches_pure ()
  | cons g rest ih =>
    obtain ⟨hFirst, hRest⟩ := List.forall_mem_cons.mp hBuiltIn
    exact ctx.watches_unless_stopped (watches_note _)
      (((ctx.watches_of_mem_builtIn hFirst).during _).bind fun _ => ih hRest)

end Context

/-! ## What a watched store has taken -/

theorem Store.Took.taken {σ : Type} [Store σ] {w w' : Watched σ} {l : List GeneratedUnit}
    (h : Store.Took w l w') : w'.taken = w.taken ++ l := by
  induction h with
  | nil _ => exact (List.append_nil _).symm
  | @cons w _ u rest hTaken _ ih =>
    have hFirst : (Store.emit w u).store.taken = w.taken ++ [u] := by
      change (Store.emit w.store u).result = .ok () at hTaken
      change (if (Store.emit w.store u).result.isOk then _ else _) = _
      rw [hTaken]
      rfl
    rw [ih, hFirst, List.append_assoc, List.singleton_append]

namespace Context

section Takes

variable {σ α β : Type} [Store σ] {ctx : Context} {mine : Delivery → Prop} {post : α → Prop}
  {s : Session (Watched σ)}

/-- In the step the store takes units of deliveries that the step may make, and no other units,
whether the step succeeds or not. -/
def Takes (mine : Delivery → Prop) (m : Run (Watched σ) α) (s : Session (Watched σ)) : Prop :=
  ∃ new : List Delivery, (m.outcome s).2.store.taken = s.store.taken ++ new.map Delivery.unit ∧
    ∀ d ∈ new, mine d

omit [Store σ] in
theorem takes_of_same {m : Run (Watched σ) α}
    (h : (m.outcome s).2.store.taken = s.store.taken) : Takes mine m s :=
  ⟨[], by simpa using h, by simp⟩

theorem takes_of_yields {m : Run (Watched σ) α} {a : α} {acc : Account} (h : m.Yields s a acc)
    (hMade : ∀ d ∈ acc.deliveries, mine d) : Takes mine m s := by
  obtain ⟨s', hGives, hGrows⟩ := h
  refine ⟨acc.deliveries, ?_, hMade⟩
  rw [show _ = _ from hGives]
  exact hGrows.store.taken

omit [Store σ] in
theorem Takes.bind {m : Run (Watched σ) α} {f : α → Run (Watched σ) β} (h : Takes mine m s)
    (hThen : ∀ a s₁, m.Gives s a s₁ → Takes mine (f a) s₁) : Takes mine (m >>= f) s := by
  obtain ⟨new, hNew, hMade⟩ := h
  rcases m.gives_or_fails s with ⟨a, s₁, hGives⟩ | ⟨fault, s₁, hFails⟩
  · obtain ⟨new', hNew', hMade'⟩ := hThen a s₁ hGives
    have hOutcome : m.outcome s = (.ok a, s₁) := hGives
    rw [hOutcome] at hNew
    refine ⟨new ++ new', ?_, List.forall_mem_append.mpr ⟨hMade, hMade'⟩⟩
    rw [outcome_bind, hOutcome, List.map_append, ← List.append_assoc, ← hNew]
    exact hNew'
  · have hOutcome : m.outcome s = (.error fault, s₁) := hFails
    rw [hOutcome] at hNew
    refine ⟨new, ?_, hMade⟩
    rw [outcome_bind, hOutcome]
    exact hNew

omit [Store σ] in
theorem takes_claimAll (c : Claim) (names : List ClassName) : Takes mine (claimAll c names) s := by
  rcases claimAll_outcome c names s with ⟨_, claimed, hGives, _⟩ | ⟨_, fault, claimed, hFails, _⟩
  · exact takes_of_same (by rw [show _ = _ from hGives])
  · exact takes_of_same (by rw [show _ = _ from hFails])

theorem takes_keep {d : Delivery} (hMine : mine d) : Takes mine (keep d.unit) s := by
  have hTaken : ((keep d.unit).outcome s).2.store.taken =
      if (Store.emit s.store.store d.unit).result.isOk then s.store.taken ++ [d.unit]
      else s.store.taken := rfl
  cases hResult : (Store.emit s.store.store d.unit).result with
  | ok =>
    rw [hResult] at hTaken
    exact ⟨[d], hTaken, by simpa using hMine⟩
  | error fault =>
    rw [hResult] at hTaken
    exact takes_of_same hTaken

theorem takes_emit {d : Delivery} (hMine : mine d) :
    Takes mine (ctx.emit d.generator d.file d.origin) s :=
  (takes_of_same rfl).bind fun _ _ _ => (takes_claimAll _ _).bind fun _ _ _ =>
    (takes_keep hMine).bind fun _ _ _ => (takes_of_same rfl).bind fun _ _ _ => takes_of_same rfl

theorem Straight.takes {acts : Bool} {m : Run (Watched σ) α} (h : ctx.Straight mine acts m post)
    (hCache : s.CacheValid ctx.table) : Takes mine m s := by
  induction h generalizing s with
  | pure _ => exact takes_of_same rfl
  | note _ => exact takes_of_same rfl
  | skip k => exact takes_of_yields (skip_yields k s) (by simp)
  | ofExcept _ _ => exact takes_of_same rfl
  | diagnoseAll id _ hNames =>
    exact takes_of_yields
      (diagnoseAll_yields id (fun fault hMem => (hNames fault hMem).not_fatal) s) (by simp)
  | candidates f =>
    refine takes_of_yields (integrationCandidates_yields f.integrationId hCache) ?_
    unfold resolving
    cases s.candidates <;> simp
  | emit hMine _ => exact takes_emit hMine
  | bind _ h _ ih ihThen =>
    refine (ih hCache).bind fun a s₁ hGives => ?_
    obtain ⟨hPost, acc, hGrows, hValid⟩ := h.grows hCache hGives
    exact ihThen a hPost (hCache.of_grows hValid hGrows)
  | learn _ _ ih => exact ih hCache
  | weaken _ _ _ ih => exact ih hCache

theorem Composed.takes {gated : Bool} {m : Bool → Run (Watched σ) α}
    (h : ctx.Composed mine gated m post) (b : Bool) (hCache : s.CacheValid ctx.table) :
    Takes mine (m b) s := by
  induction h generalizing s with
  | straight h => exact h.takes hCache
  | pure _ => exact takes_of_same rfl
  | note _ => exact takes_of_same rfl
  | ask _ _ ihStopped ihGo =>
    refine (takes_of_same rfl).bind fun stop s₁ hAsk => ?_
    obtain ⟨_, rfl⟩ := gives_shouldStop_iff.mp hAsk
    cases stop with
    | true => exact ihStopped hCache
    | false => exact ihGo hCache
  | bind h _ ih ihThen =>
    refine (ih hCache).bind fun a s₁ hGives => ?_
    obtain ⟨hPost, acc, hGrows, hValid⟩ := h.grows b hCache hGives
    exact ihThen a hPost (hCache.of_grows hValid hGrows)
  | during stretch _ ih => exact ih hCache
  | weaken _ _ _ ih => exact ih hCache

end Takes

end Context

namespace Pipeline

open Context

variable {σ : Type} [Store σ]

theorem watches_steps (p : Pipeline) (ctx : Context) (faults : List Fault)
    (hBuiltIn : ∀ g ∈ p.generators, g ∈ builtIn) :
    (p.steps ctx faults : Run (Watched σ) Unit).Watches (p.steps ctx faults) := by
  rw [steps_eq, steps_eq]
  refine Watches.bind ((watches_note _).bind fun _ => ctx.watches_diagnoseAll _ _) fun _ => ?_
  refine Watches.bind ?_ fun _ => watches_finish.bind fun _ => watches_note _
  exact ctx.watches_unless_stopped (watches_pure ()) (ctx.watches_runGenerators hBuiltIn)

/-- A run with its store watched. -/
def watchedRun (p : Pipeline) (t : SymbolTable) (store : σ) : Finished (Watched σ) :=
  p.run t (Watched.start store)

/-- Watching the store of a run changes neither the run nor its store. -/
theorem run_eq_watchedRun (settings : Settings) (t : SymbolTable) (store : σ) :
    (build settings []).run t store =
      ⟨((build settings []).watchedRun t store).result,
        ((build settings []).watchedRun t store).store.store,
        ((build settings []).watchedRun t store).notes⟩ := by
  unfold watchedRun
  cases hForest : ((build settings []).context t).graph.validate with
  | error fault =>
    have hCycle : (ScopeGraph.build t).1.validate = .error fault := hForest
    unfold run
    simp only [hCycle]
    rfl
  | ok =>
    have hSame := (build settings []).watches_steps ((build settings []).context t)
      (ScopeGraph.build t).2 (fun _ => mem_builtIn_of_mem_generators)
      (begin t (Watched.start store))
    rw [run_of_forest store hForest, run_of_forest (Watched.start store) hForest]
    change ((build settings []).steps _ _).outcome (begin t store) = _ at hSame
    rw [hSame]
    rfl

end Pipeline

end Bindery
