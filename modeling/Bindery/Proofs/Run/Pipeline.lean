import Bindery.Proofs.Run.Generators

/-! # What a successful run consists of

A run that collects diagnostics and succeeds gives every enabled generator its turn. Its account is
that of the faults of scopes, followed by the accounts of the generators one after the other. What a
built-in generator puts its name to is therefore just what its own turn adds.
-/

namespace Bindery

open Run

variable {σ : Type} [Store σ]

/-- A finished run has an account: the report shows it, and the store took its units. -/
structure Finished.Accounts (fin : Finished σ) (store : σ) (a : Account) : Prop where
  report : fin.result = .ok ⟨a.journal⟩
  kept : ∃ last, Store.Took store (a.deliveries.map Delivery.unit) last ∧
    (Store.finish last).result = .ok () ∧ fin.store = (Store.finish last).store

/-- Under the name of a generator an account shows just what the other account lists. -/
structure Account.Shows (a : Account) (id : String) (own : Account) : Prop where
  deliveries : a.deliveries.filter (fun d => d.generator = id) = own.deliveries
  diagnostics : a.diagnostics.filter (fun d => d.generator = id) = own.diagnostics
  skips : a.skips.filter (fun k => k.generator = id) = own.skips

theorem filter_around {α : Type} {before own after : List α} {p : α → Bool}
    (hBefore : ∀ x ∈ before, p x = false) (hOwn : ∀ x ∈ own, p x = true)
    (hAfter : ∀ x ∈ after, p x = false) : (before ++ own ++ after).filter p = own := by
  rw [List.filter_append, List.filter_append, List.filter_eq_self.mpr hOwn,
    List.filter_eq_nil_iff.mpr (by simpa using hBefore),
    List.filter_eq_nil_iff.mpr (by simpa using hAfter), List.nil_append, List.append_nil]

theorem Account.shows_of_signedBy {id : String} {before own after : Account}
    (hBefore : before.SignedBy (· ≠ id)) (hOwn : own.SignedBy (· = id))
    (hAfter : after.SignedBy (· ≠ id)) : (before ++ own ++ after).Shows id own where
  deliveries := filter_around (fun d hMem => by simp [hBefore.deliveries d hMem])
    (fun d hMem => by simp [hOwn.deliveries d hMem])
    (fun d hMem => by simp [hAfter.deliveries d hMem])
  diagnostics := filter_around (fun d hMem => by simp [hBefore.diagnostics d hMem])
    (fun d hMem => by simp [hOwn.diagnostics d hMem])
    (fun d hMem => by simp [hAfter.diagnostics d hMem])
  skips := filter_around (fun k hMem => by simp [hBefore.skips k hMem])
    (fun k hMem => by simp [hOwn.skips k hMem])
    (fun k hMem => by simp [hAfter.skips k hMem])

/-! ## Turns of generators -/

section Turns

variable {ctx : Context} {s s' : Session σ} {u : Unit}

theorem gives_runGenerators_cons (hCollect : ctx.failFast = false) {g : Generator}
    {rest : List Generator} (h : (runGenerators ctx (g :: rest)).Gives s u s') :
    ∃ s₁ notes, (g.generate ctx).Gives s () s₁ ∧
      (runGenerators ctx rest).Gives { s₁ with notes } u s' := by
  rw [runGenerators, gives_unless_stopped hCollect] at h
  obtain ⟨_, _, hTurn, hRest⟩ := gives_bind.mp h
  obtain ⟨s₁, notes, hGenerate, rfl⟩ := gives_of_during hTurn
  exact ⟨s₁, notes, hGenerate, hRest⟩

theorem gives_runGenerators_append (hCollect : ctx.failFast = false) {l m : List Generator}
    (h : (runGenerators ctx (l ++ m)).Gives s u s') :
    ∃ s₁, (runGenerators ctx l).Gives s () s₁ ∧ (runGenerators ctx m).Gives s₁ u s' := by
  induction l generalizing s with
  | nil => exact ⟨s, gives_pure.mpr ⟨rfl, rfl⟩, h⟩
  | cons g rest ih =>
    rw [List.cons_append, runGenerators, gives_unless_stopped hCollect] at h
    obtain ⟨_, s₁, hTurn, hRest⟩ := gives_bind.mp h
    obtain ⟨s₂, hBefore, hAfter⟩ := ih hRest
    refine ⟨s₂, ?_, hAfter⟩
    rw [runGenerators, gives_unless_stopped hCollect]
    exact gives_bind.mpr ⟨(), s₁, hTurn, hBefore⟩

theorem grows_of_runGenerators (hCollect : ctx.failFast = false)
    (hForest : ctx.graph.validate = .ok ()) {l : List Generator} (hHonest : ∀ g ∈ l, g.Honest)
    (hCache : s.CacheValid ctx.table) (h : (runGenerators ctx l).Gives s u s') :
    ∃ a : Account, s.Grows a s' ∧ a.SignedBy (fun id => ∃ g ∈ l, id = g.id) ∧
      a.CacheValid ctx.table := by
  induction l generalizing s with
  | nil =>
    obtain ⟨_, rfl⟩ := gives_pure.mp h
    exact ⟨{}, .refl s, .empty _, nofun⟩
  | cons g rest ih =>
    obtain ⟨hFirst, hRest⟩ := List.forall_mem_cons.mp hHonest
    obtain ⟨s₁, notes, hTurn, hLater⟩ := gives_runGenerators_cons hCollect h
    obtain ⟨a, hGrows, hSigned, hValid⟩ := hFirst.grows hCollect hForest hCache hTurn
    have hNoted := hGrows.of_aside s₁.names notes
    obtain ⟨b, hGrows', hSigned', hValid'⟩ := ih hRest (hCache.of_grows hValid hNoted) hLater
    refine ⟨a ++ b, hNoted.trans hGrows', .append (hSigned.mono ?_) (hSigned'.mono ?_),
      hValid.append hValid'⟩
    · rintro _ rfl
      exact ⟨g, List.mem_cons_self, rfl⟩
    · rintro _ ⟨other, hMem, rfl⟩
      exact ⟨other, List.mem_cons_of_mem _ hMem, rfl⟩

end Turns

/-! ## The generators of a pipeline -/

namespace Pipeline

theorem filter_byPhase (l : List Generator) (p : Generator → Bool) :
    (byPhase l).filter p = byPhase (l.filter p) := by
  unfold byPhase
  rw [List.filter_flatMap]
  congr 1
  funext phase
  rw [List.filter_filter, List.filter_filter]
  exact List.filter_congr fun g _ => Bool.and_comm _ _

theorem byPhase_singleton (g : Generator) : byPhase [g] = [g] := by
  cases hPhase : g.phase <;> simp [byPhase, Phase.all, hPhase]

/-- A further generator is honest and has a name of its own. -/
structure Guest (g : Generator) : Prop where
  honest : g.Honest
  fresh : ∀ own ∈ builtIn, g.id ≠ own.id

theorem filter_id_generators (settings : Settings) {extra : List Generator}
    (hGuests : ∀ g ∈ extra, Guest g) {g : Generator} (hMem : g ∈ builtIn) :
    (build settings extra).generators.filter (fun other => other.id = g.id) =
      if isEnabled settings g then [g] else [] := by
  have hOthers : extra.filter (fun other => other.id = g.id) = [] :=
    List.filter_eq_nil_iff.mpr fun other hOther => by simp [(hGuests other hOther).fresh g hMem]
  have hOnly : ((builtIn ++ extra).filter (isEnabled settings)).filter
      (fun other => other.id = g.id) = if isEnabled settings g then [g] else [] := by
    rw [List.filter_comm, List.filter_append, builtIn_filter_id g hMem, hOthers]
    cases hEnabled : isEnabled settings g <;> simp [hEnabled]
  rw [build, filter_byPhase, hOnly]
  split
  · exact byPhase_singleton g
  · rfl

theorem mem_of_mem_generators {settings : Settings} {extra : List Generator} {g : Generator}
    (hMem : g ∈ (build settings extra).generators) : g ∈ builtIn ∨ g ∈ extra := by
  obtain ⟨_, _, hMem⟩ := List.mem_flatMap.mp hMem
  exact List.mem_append.mp (List.mem_of_mem_filter (List.mem_of_mem_filter hMem))

theorem honest_of_mem_generators (settings : Settings) {extra : List Generator}
    (hGuests : ∀ g ∈ extra, Guest g) : ∀ g ∈ (build settings extra).generators, g.Honest := by
  intro g hMem
  rcases mem_of_mem_generators hMem with hOwn | hExtra
  · exact honest_of_mem_builtIn g hOwn
  · exact (hGuests g hExtra).honest

theorem scopeGraphId_fresh : ∀ g ∈ builtIn, scopeGraphId ≠ g.id := by
  intro g hMem hSame
  have hId : g.id ∈ builtIn.map (·.id) := List.mem_map_of_mem hMem
  rw [← hSame] at hId
  revert hId
  decide

/-! ## Runs -/

/-- What the steps of a run over a table look at. -/
def context (p : Pipeline) (t : SymbolTable) : Context where
  table := t
  graph := (ScopeGraph.build t).1
  header := p.settings.header
  failFast := p.settings.failFast

theorem grows_of_steps {p : Pipeline} {ctx : Context} {faults : List Fault} {s s' : Session σ}
    {u : Unit} (hCollect : ctx.failFast = false) (h : (p.steps ctx faults).Gives s u s') :
    ∃ s₁ s₂, s.Grows { diagnostics := faults.map (ctx.diagnosticOf scopeGraphId) } s₁ ∧
      (runGenerators ctx p.generators).Gives s₁ () s₂ ∧
      (Store.finish s₂.store).result = .ok () ∧ s'.store = (Store.finish s₂.store).store ∧
      s'.journal = s₂.journal := by
  obtain ⟨_, _, hNote, h⟩ := gives_bind.mp h
  obtain ⟨_, s₁, hFaults, h⟩ := gives_bind.mp h
  obtain ⟨_, _, hStop, h⟩ := gives_bind.mp h
  obtain ⟨rfl, rfl⟩ := (gives_shouldStop hCollect).mp hStop
  obtain ⟨_, s₂, hTurns, h⟩ := gives_bind.mp h
  obtain ⟨_, s₃, hFinish, hEnd⟩ := gives_bind.mp h
  obtain rfl := gives_note.mp hEnd
  have hNoted := ((yields_note s _).of_gives hNote).2
  simp only [finish, gives_bind, gives_get, gives_set, gives_ofExcept] at hFinish
  obtain ⟨_, _, ⟨rfl, rfl⟩, _, _, rfl, hResult, rfl⟩ := hFinish
  refine ⟨s₁, s₂, ?_, hTurns, hResult, rfl, rfl⟩
  simpa using hNoted.trans (Context.grows_of_diagnoseAll hFaults)

omit [Store σ] in
theorem exists_report {result : Except Fault Report} (h : result.isOk = true) :
    ∃ report, result = .ok report := by
  cases result with
  | error fault => cases h
  | ok report => exact ⟨report, rfl⟩

theorem forest_of_run {p : Pipeline} {t : SymbolTable} {store : σ} {report : Report}
    (hRun : (p.run t store).result = .ok report) : (p.context t).graph.validate = .ok () := by
  unfold run at hRun
  change (ScopeGraph.build t).1.validate = .ok ()
  cases hForest : (ScopeGraph.build t).1.validate with
  | error fault =>
    simp only [hForest] at hRun
    cases hRun
  | ok => rfl

/-- The session in which the steps of a run begin. -/
def begin (t : SymbolTable) (store : σ) : Session σ := { store, notes := ScopeGraph.buildNotes t }

theorem run_of_forest {p : Pipeline} {t : SymbolTable} (store : σ)
    (hForest : (p.context t).graph.validate = .ok ()) : p.run t store =
      ⟨((p.steps (p.context t) (ScopeGraph.build t).2).outcome (begin t store)).1.map fun () =>
          ⟨((p.steps (p.context t) (ScopeGraph.build t).2).outcome (begin t store)).2.journal⟩,
        ((p.steps (p.context t) (ScopeGraph.build t).2).outcome (begin t store)).2.store,
        ((p.steps (p.context t) (ScopeGraph.build t).2).outcome (begin t store)).2.notes.map
          (Note.during (stretch t))⟩ := by
  have hForest' : (ScopeGraph.build t).1.validate = .ok () := hForest
  unfold run
  simp only [hForest']
  rfl

/-- A run that succeeds records the faults of scopes, gives the generators their turns and ends the
store. -/
theorem gives_of_run {p : Pipeline} {t : SymbolTable} {store : σ} {report : Report}
    (hCollect : p.settings.failFast = false) (hRun : (p.run t store).result = .ok report) :
    ∃ (faults : Account) (s₁ s₂ : Session σ), (begin t store).Grows faults s₁ ∧
      faults.SignedBy (fun id => ∀ g ∈ builtIn, id ≠ g.id) ∧ s₁.CacheValid t ∧
      (runGenerators (p.context t) p.generators).Gives s₁ () s₂ ∧
      ∀ a, (begin t store).Grows a s₂ → (p.run t store).Accounts store a := by
  have hEq := run_of_forest store (forest_of_run hRun)
  rw [hEq] at hRun ⊢
  cases hSteps : (p.steps (p.context t) (ScopeGraph.build t).2).outcome (begin t store) with
  | mk result s₃ =>
    rw [hSteps] at hRun
    cases result with
    | error fault => cases hRun
    | ok =>
      obtain ⟨s₁, s₂, hFaults, hTurns, hResult, hStore, hJournal⟩ :=
        grows_of_steps (show (p.context t).failFast = false from hCollect) hSteps
      refine ⟨_, s₁, s₂, hFaults, ⟨by simp, fun d hMem => ?_, by simp⟩, ?_, hTurns,
        fun a hGrows => ⟨?_, s₂.store, hGrows.store, hResult, hStore⟩⟩
      · obtain ⟨_, _, rfl⟩ := List.mem_map.mp hMem
        exact scopeGraphId_fresh
      · intro found hFound
        rw [hFaults.candidates] at hFound
        cases hFound
      · have hWhole : s₃.journal = a.journal := hJournal.trans (hGrows.journal_eq rfl)
        simp [Except.map, hWhole]

variable {settings : Settings} {extra : List Generator} {t : SymbolTable} {store : σ}
  {report : Report} {g : Generator}

/-- An enabled built-in generator has one turn, and under its name the run shows what it adds. -/
theorem shows_of_run (hCollect : settings.failFast = false) (hGuests : ∀ g ∈ extra, Guest g)
    (hRun : ((build settings extra).run t store).result = .ok report) (hMem : g ∈ builtIn)
    (hEnabled : isEnabled settings g = true) :
    ∃ s₁ s₂ : Session σ, s₁.CacheValid t ∧
      (g.generate ((build settings extra).context t)).Gives s₁ () s₂ ∧
      ∀ own : Account, s₁.Grows own s₂ → own.SignedBy (· = g.id) →
        ∃ a, ((build settings extra).run t store).Accounts store a ∧ a.Shows g.id own := by
  have hForest := forest_of_run hRun
  have hHonest := honest_of_mem_generators settings hGuests
  have hTurn := filter_id_generators settings hGuests hMem
  rw [if_pos hEnabled] at hTurn
  obtain ⟨before, after, hList, hBefore, _, hAfter⟩ := List.filter_eq_cons_iff.mp hTurn
  rw [List.filter_eq_nil_iff] at hAfter
  rw [hList] at hHonest
  obtain ⟨hHonestBefore, hHonestRest⟩ := List.forall_mem_append.mp hHonest
  obtain ⟨hHonestOwn, hHonestAfter⟩ := List.forall_mem_cons.mp hHonestRest
  obtain ⟨faults, s₀, s₃, hFaults, hSignedFaults, hCache₀, hTurns, hAccounts⟩ :=
    gives_of_run hCollect hRun
  rw [hList] at hTurns
  obtain ⟨s₁, hFirst, hTurns⟩ := gives_runGenerators_append hCollect hTurns
  obtain ⟨s₂, notes, hGenerate, hLast⟩ := gives_runGenerators_cons hCollect hTurns
  obtain ⟨a, hGrowsBefore, hSignedBefore, hValidBefore⟩ :=
    grows_of_runGenerators hCollect hForest hHonestBefore hCache₀ hFirst
  have hCache₁ := hCache₀.of_grows hValidBefore hGrowsBefore
  obtain ⟨b, hGrowsOwn, _, hValidOwn⟩ := hHonestOwn.grows hCollect hForest hCache₁ hGenerate
  have hCache₂ := hCache₁.of_grows hValidOwn (hGrowsOwn.of_aside s₂.names notes)
  obtain ⟨c, hGrowsAfter, hSignedAfter, _⟩ :=
    grows_of_runGenerators hCollect hForest hHonestAfter hCache₂ hLast
  refine ⟨s₁, s₂, hCache₁, hGenerate, fun own hOwn hSigned => ?_⟩
  have hUpTo := (hFaults.trans hGrowsBefore).trans (hOwn.of_aside s₂.names notes)
  have hTotal := hUpTo.trans hGrowsAfter
  refine ⟨_, hAccounts _ hTotal, Account.shows_of_signedBy (.append ?_ ?_) hSigned ?_⟩
  · exact hSignedFaults.mono fun id hFresh => hFresh g hMem
  · refine hSignedBefore.mono ?_
    rintro _ ⟨other, hOther, rfl⟩ hSame
    exact hBefore other hOther (by simp [hSame])
  · refine hSignedAfter.mono ?_
    rintro _ ⟨other, hOther, rfl⟩ hSame
    exact hAfter other hOther (by simp [hSame])

/-- A built-in generator that is not enabled puts its name to nothing. -/
theorem shows_nothing_of_run (hCollect : settings.failFast = false)
    (hGuests : ∀ g ∈ extra, Guest g)
    (hRun : ((build settings extra).run t store).result = .ok report) (hMem : g ∈ builtIn)
    (hDisabled : isEnabled settings g = false) :
    ∃ a, ((build settings extra).run t store).Accounts store a ∧ a.Shows g.id {} := by
  have hForest := forest_of_run hRun
  have hHonest := honest_of_mem_generators settings hGuests
  have hTurn := filter_id_generators settings hGuests hMem
  rw [hDisabled, if_neg Bool.false_ne_true, List.filter_eq_nil_iff] at hTurn
  obtain ⟨faults, s₀, s₁, hFaults, hSignedFaults, hCache₀, hTurns, hAccounts⟩ :=
    gives_of_run hCollect hRun
  obtain ⟨a, hGrows, hSigned, _⟩ :=
    grows_of_runGenerators hCollect hForest hHonest hCache₀ hTurns
  have hForeign : (faults ++ a).SignedBy (· ≠ g.id) := by
    refine .append (hSignedFaults.mono fun id hFresh => hFresh g hMem) (hSigned.mono ?_)
    rintro _ ⟨other, hOther, rfl⟩ hSame
    exact hTurn other hOther (by simp [hSame])
  have hShows := Account.shows_of_signedBy hForeign (.empty (· = g.id)) (.empty (· ≠ g.id))
  refine ⟨faults ++ a, hAccounts _ (hFaults.trans hGrows), ?_⟩
  simpa using hShows

end Pipeline

/-- Settings with a single feature switched on. -/
def Settings.only (f : Feature) : Settings where
  features := FeatureSet.none.insert f

end Bindery
