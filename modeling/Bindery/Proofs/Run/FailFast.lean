import Bindery.Proofs.Run.Faults
import Bindery.Proofs.Run.Stopping

/-! # Failing fast

Two runs over one table that differ in whether they stop at the first rejected declaration. The run
that stops gets as far as its first diagnostics, with all that the other run records up to there and
with nothing else. What it reports are the diagnostics of a single batch, since nobody asks whether
to stop while a batch is recorded.
-/

namespace Bindery

open Context Run

/-- The same settings for a run that stops early, or for one that collects diagnostics. -/
def Settings.stopping (settings : Settings) (b : Bool) : Settings := { settings with failFast := b }

namespace Pipeline

variable {σ : Type} [Store σ]

/-- What a run does before its first turn. -/
def opening (ctx : Context) (faults : List Fault) : Run σ Unit := do
  Run.note { level := .debug, target := noteTarget, message := "Scope graph ready"
             fields := ["scopes"] }
  ctx.diagnoseAll scopeGraphId faults

/-- The turns of the generators, unless the run is to stop before the first one. -/
def turns (p : Pipeline) (ctx : Context) : Run σ Unit := do
  if ← ctx.shouldStop then pure ()
  else runGenerators ctx p.generators

/-- The last note of a run that succeeds. -/
def endNote : Note where
  level := .info
  target := noteTarget
  message := "Generation finished"
  fields := ["units", "diagnostics", "skips", "elapsed_ms"]

/-- What a run does behind its last turn. -/
def closing : Run σ Unit := do
  Run.finish
  Run.note endNote

/-- The session behind the end of its store. -/
def closed (s : Session σ) : Session σ :=
  { s with
    store := (Store.finish s.store).store
    notes := s.notes ++ (Store.finish s.store).notes ++ [endNote] }

theorem steps_eq (p : Pipeline) (ctx : Context) (faults : List Fault) :
    (p.steps ctx faults : Run σ Unit) =
      (opening ctx faults >>= fun _ => p.turns ctx >>= fun _ => closing) := by
  unfold steps opening turns
  simp only [bind_assoc]
  congr 1
  funext _
  congr 1
  funext _
  congr 1
  funext stop
  cases stop <;> rfl

section Steps

variable {p : Pipeline} {ctx : Context} {s s' : Session σ}

theorem gives_steps_iff {faults : List Fault} : (p.steps ctx faults).Gives s () s' ↔ ∃ s₁ s₂,
    (opening ctx faults).Gives s () s₁ ∧ (p.turns ctx).Gives s₁ () s₂ ∧ closing.Gives s₂ () s' := by
  rw [steps_eq]
  simp only [gives_bind]
  constructor
  · rintro ⟨_, s₁, hOpening, _, s₂, hTurns, hClosing⟩
    exact ⟨s₁, s₂, hOpening, hTurns, hClosing⟩
  · rintro ⟨s₁, s₂, hOpening, hTurns, hClosing⟩
    exact ⟨(), s₁, hOpening, (), s₂, hTurns, hClosing⟩

/-- A run that collects diagnostics gives every generator its turn. -/
theorem gives_turns_iff (hCollect : ctx.failFast = false) {u : Unit} :
    (p.turns ctx).Gives s u s' ↔ (runGenerators ctx p.generators).Gives s u s' :=
  gives_unless_stopped hCollect

omit [Store σ] in
@[simp] theorem opening_stopping (ctx : Context) (b : Bool) (faults : List Fault) :
    (opening (ctx.stopping b) faults : Run σ Unit) = opening ctx faults := by
  simp [opening]

theorem grows_of_opening {faults : List Fault} (h : (opening ctx faults).Gives s () s') :
    s.Grows { diagnostics := faults.map (ctx.diagnosticOf scopeGraphId) } s' := by
  obtain ⟨_, s₁, hNote, hFaults⟩ := gives_bind.mp h
  have hNoted := ((yields_note s _).of_gives hNote).2
  simpa using hNoted.trans (grows_of_diagnoseAll hFaults)

/-- A run is closed if its store can be ended. -/
theorem gives_closing_iff : (closing : Run σ Unit).Gives s () s' ↔
    (Store.finish s.store).result = .ok () ∧ closed s = s' := by
  simp only [closing, finish, gives_bind, gives_get, gives_set, gives_ofExcept, gives_note]
  constructor
  · rintro ⟨_, _, ⟨_, _, ⟨rfl, rfl⟩, _, _, rfl, hEnded, rfl⟩, rfl⟩
    exact ⟨hEnded, rfl⟩
  · rintro ⟨hEnded, rfl⟩
    exact ⟨(), _, ⟨s, s, ⟨rfl, rfl⟩, ⟨⟩, _, rfl, hEnded, rfl⟩, rfl⟩

/-- The turns of built-in generators are composed, and so is the question in front of them. -/
theorem composed_turns {mine : Delivery → Prop} (hBuiltIn : ∀ g ∈ p.generators, g ∈ builtIn)
    (hMine : ∀ g ∈ p.generators, ∀ d, ctx.Signed g.id d → mine d) :
    ctx.Composed mine true (fun b => (p.turns (ctx.stopping b) : Run σ Unit)) fun _ => True :=
  .ask (.pure trivial) (composed_runGenerators hBuiltIn hMine).go

theorem cacheValid_of_opening {faults : List Fault} (hFresh : s.candidates = none)
    (h : (opening ctx faults).Gives s () s') : s'.CacheValid ctx.table := by
  intro found hFound
  rw [(grows_of_opening h).candidates, hFresh] at hFound
  cases hFound

omit [Store σ] in
theorem logs_of_opening {faults : List Fault} (h : (opening ctx faults).Gives s () s') :
    ∃ new, s.Logs new s' ∧ ∀ n ∈ new, n.isEmission = false := by
  obtain ⟨_, s₁, hNote, hFaults⟩ := gives_bind.mp h
  obtain rfl := gives_note.mp hNote
  obtain ⟨new, hLogs, hNone⟩ := logs_of_diagnoseAll hFaults
  refine ⟨_ ++ new, .trans ⟨rfl, rfl, rfl⟩ hLogs, List.forall_mem_append.mpr ⟨?_, hNone⟩⟩
  simp [Note.isEmission]

/-- The steps of a run that stops early, from its beginning to its end. -/
theorem proceeds_of_steps (hQuiet : Store.Quiet σ) (hBuiltIn : ∀ g ∈ p.generators, g ∈ builtIn)
    (hClean : s.Clean) (hFresh : s.candidates = none)
    (h : (p.steps (ctx.stopping true) (ScopeGraph.build ctx.table).2).Gives s () s') :
    ∃ new, ctx.Proceeds s new s' := by
  obtain ⟨s₁, s₂, hOpening, hTurns, hClosing⟩ := gives_steps_iff.mp h
  obtain ⟨hEnded, rfl⟩ := gives_closing_iff.mp hClosing
  have hCache := cacheValid_of_opening hFresh hOpening
  obtain ⟨new, hLogs, hNone⟩ := logs_of_opening hOpening
  have hFirst : ctx.Proceeds s new s₁ := by
    refine ⟨hLogs, Note.pairwise_of_no_emission hNone, ?_⟩
    rw [(grows_of_opening hOpening).diagnostics, hClean]
    exact .scopes
  have hComposed : ctx.Composed (fun _ => True) true
      (fun b => (p.turns (ctx.stopping b) : Run σ Unit)) fun _ => True :=
    composed_turns hBuiltIn fun _ _ _ _ => trivial
  have hUpTo : ∃ new, ctx.Proceeds s new s₂ := by
    by_cases hClean₁ : s₁.Clean
    · obtain ⟨new', hSecond⟩ := hComposed.proceeds hQuiet hCache hClean₁ hTurns
      exact ⟨new ++ new', hFirst.trans hClean₁ hSecond⟩
    · obtain ⟨_, notes, hIdle, _, hPlain⟩ := hComposed.idles rfl hClean₁
      obtain ⟨_, rfl⟩ := hIdle.unique hTurns
      exact ⟨new ++ notes, hFirst.quietly (.of_plain hPlain rfl rfl) hPlain rfl⟩
  obtain ⟨new', hProceeds⟩ := hUpTo
  have hPlain : ∀ n ∈ (Store.finish s₂.store).notes ++ [endNote], n.Plain :=
    List.forall_mem_append.mpr ⟨hQuiet.finish s₂.store, by simpa using ⟨rfl, rfl⟩⟩
  refine ⟨_, hProceeds.quietly (.of_plain hPlain rfl ?_) hPlain rfl⟩
  exact List.append_assoc _ _ _

end Steps

/-! ## Runs -/

section Runs

variable {p : Pipeline} {t : SymbolTable} {store : σ} {report : Report}

theorem run_of_gives (hForest : (p.context t).graph.validate = .ok ()) {s' : Session σ}
    (h : (p.steps (p.context t) (ScopeGraph.build t).2).Gives (begin t store) () s') :
    p.run t store = ⟨.ok ⟨s'.journal⟩, s'.store, s'.notes.map (Note.during (stretch t))⟩ := by
  rw [run_of_forest store hForest, show _ = _ from h]
  rfl

theorem exists_gives_of_run (hRun : (p.run t store).result = .ok report) : ∃ s',
    (p.steps (p.context t) (ScopeGraph.build t).2).Gives (begin t store) () s' ∧
      s'.journal = report.journal := by
  rw [run_of_forest store (forest_of_run hRun)] at hRun
  cases hSteps : (p.steps (p.context t) (ScopeGraph.build t).2).outcome (begin t store) with
  | mk result s' =>
    rw [hSteps] at hRun
    cases result with
    | error fault => cases hRun
    | ok =>
      cases hRun
      exact ⟨s', hSteps, rfl⟩

/-- Between its opening and its closing a run that succeeds makes the journal of its report. -/
theorem exists_turns_of_run (hRun : (p.run t store).result = .ok report) : ∃ s₀ s₁ : Session σ,
    (opening (p.context t) (ScopeGraph.build t).2).Gives (begin t store) () s₀ ∧
      (p.turns (p.context t)).Gives s₀ () s₁ ∧ s₁.journal = report.journal := by
  obtain ⟨last, hSteps, hJournal⟩ := exists_gives_of_run hRun
  obtain ⟨s₀, s₁, hOpening, hTurns, hClosing⟩ := gives_steps_iff.mp hSteps
  obtain ⟨_, rfl⟩ := gives_closing_iff.mp hClosing
  exact ⟨s₀, s₁, hOpening, hTurns, hJournal⟩

omit [Store σ] in
theorem plain_buildNotes (t : SymbolTable) : ∀ n ∈ ScopeGraph.buildNotes t, n.Plain := by
  intro n hMem
  obtain ⟨⟨d, result⟩, _, rfl⟩ := List.mem_map.mp hMem
  cases result <;> exact ⟨by simp [Note.isEmission, ScopeGraph.noteTarget], by
    simp [Note.isDiagnosis, ScopeGraph.noteTarget]⟩

variable {settings : Settings}

/-- If the run that collects diagnostics succeeds then so does the one that stops at the first, and
up to its last turn the former only adds to what the latter has. -/
theorem tracks_run (hEnds : ∀ l last, Store.Took store l last →
      (Store.finish last).result = .ok ())
    (hRun : ((build (settings.stopping false) []).run t store).result = .ok report) :
    ∃ early : Report,
      ((build (settings.stopping true) []).run t store).result = .ok early ∧
      early.journal.emitted <+: report.journal.emitted ∧
      early.journal.diagnostics <+: report.journal.diagnostics ∧
      early.journal.skips <+: report.journal.skips ∧
      (early.journal.diagnostics = [] → (build (settings.stopping true) []).run t store =
        (build (settings.stopping false) []).run t store) := by
  have hForest := forest_of_run hRun
  obtain ⟨last, hSteps, hJournal⟩ := exists_gives_of_run hRun
  have hLenient := run_of_gives hForest hSteps
  let ctx := (build settings []).context t
  obtain ⟨s₁, s₂, hOpening, hTurns, hClosing⟩ := gives_steps_iff.mp hSteps
  change (opening (ctx.stopping false) _).Gives _ () s₁ at hOpening
  change ((build settings []).turns (ctx.stopping false)).Gives s₁ () s₂ at hTurns
  obtain ⟨_, rfl⟩ := gives_closing_iff.mp hClosing
  rw [opening_stopping] at hOpening
  have hBuiltIn : ∀ g ∈ (build settings []).generators, g ∈ builtIn :=
    fun _ => mem_builtIn_of_mem_generators
  have hComposed : ctx.Composed (fun _ => True) true
      (fun b => ((build settings []).turns (ctx.stopping b) : Run σ Unit)) fun _ => True :=
    composed_turns hBuiltIn fun _ _ _ _ => trivial
  obtain ⟨_, s₃, hStrict, ⟨acc, hGrows⟩, hSame⟩ :=
    hComposed.tracks (cacheValid_of_opening rfl hOpening) hTurns
  obtain ⟨_, acc', hUpTo, _⟩ := hComposed.grows true (cacheValid_of_opening rfl hOpening) hStrict
  have hEnded := hEnds _ _ ((grows_of_opening hOpening).trans hUpTo).store
  have hStrictSteps : ((build settings []).steps (ctx.stopping true)
      (ScopeGraph.build t).2).Gives (begin t store) () (closed s₃) := by
    refine gives_steps_iff.mpr ⟨s₁, s₃, ?_, hStrict, gives_closing_iff.mpr ⟨hEnded, rfl⟩⟩
    rwa [opening_stopping]
  have hRunStrict := run_of_gives (p := build (settings.stopping true) []) hForest hStrictSteps
  refine ⟨⟨s₃.journal⟩, ?_, ?_, ?_, ?_, fun hClean => ?_⟩
  · rw [hRunStrict]
    rfl
  · rw [← hJournal]
    exact ⟨_, hGrows.emitted.symm⟩
  · rw [← hJournal]
    exact ⟨_, hGrows.diagnostics.symm⟩
  · rw [← hJournal]
    exact ⟨_, hGrows.skips.symm⟩
  · obtain ⟨_, rfl⟩ := hSame hClean
    rw [hLenient, hRunStrict]

/-- The journal and the notes of a run that stops early. -/
theorem proceeds_of_run (hQuiet : Store.Quiet σ)
    (hRun : ((build (settings.stopping true) []).run t store).result = .ok report) :
    ∃ (s' : Session σ) (new : List Note),
      ((build settings []).context t).Proceeds (begin t store) new s' ∧
      (build (settings.stopping true) []).run t store =
        ⟨.ok ⟨s'.journal⟩, s'.store, s'.notes.map (Note.during (stretch t))⟩ := by
  obtain ⟨s', hSteps, _⟩ := exists_gives_of_run hRun
  have hSteps' : ((build settings []).steps (((build settings []).context t).stopping true)
    (ScopeGraph.build t).2).Gives (begin t store) () s' := hSteps
  obtain ⟨new, hProceeds⟩ :=
    proceeds_of_steps (s := begin t store) hQuiet (fun _ => mem_builtIn_of_mem_generators) rfl rfl
      hSteps'
  exact ⟨s', new, hProceeds, run_of_gives (forest_of_run hRun) hSteps⟩

/-- If a run that collects diagnostics succeeds then the same run succeeds if it stops at the first
of them. Each list of its report is a prefix of the list of the other run, and if one of the two has
no diagnostics then neither has and they do not differ at all. Every unit and every diagnostic has a
note of its own, and no unit is emitted behind a diagnosis. -/
theorem fail_fast_prefix (settings : Settings) (t : SymbolTable) (store : σ) (report : Report)
    (hQuiet : Store.Quiet σ)
    (hEnds : ∀ l last, Store.Took store l last → (Store.finish last).result = .ok ())
    (hRun : ((build (settings.stopping false) []).run t store).result = .ok report) :
    ∃ early : Report,
      ((build (settings.stopping true) []).run t store).result = .ok early ∧
      early.journal.emitted <+: report.journal.emitted ∧
      early.journal.diagnostics <+: report.journal.diagnostics ∧
      early.journal.skips <+: report.journal.skips ∧
      (early.journal.diagnostics = [] ↔ report.journal.diagnostics = []) ∧
      (early.journal.diagnostics = [] → (build (settings.stopping true) []).run t store =
        (build (settings.stopping false) []).run t store) ∧
      ((build (settings.stopping true) []).run t store).notes.countP Note.isEmission =
        early.journal.emitted.length ∧
      ((build (settings.stopping true) []).run t store).notes.countP Note.isDiagnosis =
        early.journal.diagnostics.length ∧
      ((build (settings.stopping true) []).run t store).notes.Pairwise
        fun n later => n.isDiagnosis = true → later.isEmission = false := by
  obtain ⟨early, hEarly, hEmitted, hDiagnostics, hSkips, hSame⟩ := tracks_run hEnds hRun
  refine ⟨early, hEarly, hEmitted, hDiagnostics, hSkips, ⟨fun hNone => ?_, fun hNone => ?_⟩, hSame,
    ?_⟩
  · have hReports := congrArg Finished.result (hSame hNone)
    rw [hEarly, hRun] at hReports
    cases hReports
    exact hNone
  · rw [hNone] at hDiagnostics
    exact List.prefix_nil.mp hDiagnostics
  · obtain ⟨s', new, hProceeds, hFinished⟩ := proceeds_of_run hQuiet hEarly
    rw [hFinished] at hEarly ⊢
    cases hEarly
    have hStart : ({ store } : Session σ).Logs (ScopeGraph.buildNotes t) (begin t store) :=
      .of_plain (plain_buildNotes t) rfl rfl
    have hLogs := hStart.trans hProceeds.logs
    have hNotes : s'.notes = ScopeGraph.buildNotes t ++ new := hProceeds.logs.notes
    rw [hNotes, hLogs.emitted, hLogs.diagnostics, List.countP_map, List.countP_map,
      List.pairwise_map]
    refine ⟨(Nat.zero_add _).symm, (Nat.zero_add _).symm, ?_⟩
    refine List.pairwise_append.mpr ⟨?_, hProceeds.ordered, fun n hMem _ _ hDiagnosis => ?_⟩
    · exact Note.pairwise_of_no_diagnosis fun n hMem => (plain_buildNotes t n hMem).notDiagnosis
    · cases (plain_buildNotes t n hMem).notDiagnosis.symm.trans hDiagnosis

/-- The diagnostics of a run that stops early are of one batch. They all name one declaration,
unless they are the faults of the scopes, or those of the candidates. -/
theorem fail_fast_single_batch (settings : Settings) (t : SymbolTable) (store : σ)
    (report : Report) (hQuiet : Store.Quiet σ)
    (hRun : ((build (settings.stopping true) []).run t store).result = .ok report) :
    ((build settings []).context t).Batch report.journal.diagnostics := by
  obtain ⟨s', new, hProceeds, hFinished⟩ := proceeds_of_run hQuiet hRun
  rw [hFinished] at hRun
  cases hRun
  exact hProceeds.batch

end Runs

end Pipeline

theorem MemoryStore.quiet : Store.Quiet MemoryStore where
  emit store u n hMem := by
    change n ∈ (MemoryStore.emit store u).notes at hMem
    unfold MemoryStore.emit at hMem
    split at hMem
    · cases hMem
    · rw [List.mem_singleton.mp hMem]
      exact ⟨rfl, rfl⟩
  finish _ _ hMem := nomatch hMem

/-! ## Broken declarations -/

namespace Sample

def firstOne : ClassName where
  package := appScope.package
  simpleNames := ["FirstOne"]
  isPackage_package := appScope.isPackage_package

def secondOne : ClassName where
  package := appScope.package
  simpleNames := ["SecondOne"]
  isPackage_package := appScope.isPackage_package

/-- Two workers that lack everything that makes a worker. -/
def brokenWorkers : SymbolTable :=
  .ofList [scope appScope .all none, contributed firstOne Work.contributesWorker appScope,
    contributed secondOne Work.contributesWorker appScope]

/-- A scope that says nothing about the features that it enables. -/
def bareScope (name : ClassName) : Declaration where
  name := name
  annotations := [⟨WellKnown.scopeConfiguration, []⟩]

def bareScopes : SymbolTable := .ofList [bareScope firstOne, bareScope secondOne]

end Sample

namespace Pipeline

open Sample

/-- The run that stops early sees all that is wrong with the first worker, and nothing of the second
one. -/
theorem fail_fast_prefix_workers : ∃ report early : Report,
    ((build ((Settings.only .work).stopping false) []).run brokenWorkers MemoryStore.empty).result =
      .ok report ∧
    ((build ((Settings.only .work).stopping true) []).run brokenWorkers MemoryStore.empty).result =
      .ok early ∧
    early.journal.diagnostics <+: report.journal.diagnostics ∧
    report.journal.diagnostics.length = 4 ∧ early.journal.diagnostics.length = 2 := by
  have hLengths : ∀ b, ((build ((Settings.only .work).stopping b) []).run brokenWorkers
      MemoryStore.empty).result.toOption.map (·.journal.diagnostics.length) =
        some (if b then 2 else 4) := by decide +kernel
  have hOk : ((build ((Settings.only .work).stopping false) []).run brokenWorkers
      MemoryStore.empty).result.isOk = true := by decide +kernel
  obtain ⟨report, hRun⟩ := exists_report hOk
  obtain ⟨early, hEarly, _, hDiagnostics, _⟩ := fail_fast_prefix (.only .work) brokenWorkers
    MemoryStore.empty report MemoryStore.quiet (fun _ _ _ => rfl) hRun
  have hLate := hLengths false
  have hSoon := hLengths true
  rw [hRun] at hLate
  rw [hEarly] at hSoon
  exact ⟨report, early, hRun, hEarly, hDiagnostics, Option.some.inj hLate, Option.some.inj hSoon⟩

/-- What is wrong with the first worker is one batch. -/
theorem fail_fast_single_batch_workers : ∃ report : Report,
    ((build ((Settings.only .work).stopping true) []).run brokenWorkers MemoryStore.empty).result =
      .ok report ∧ report.journal.diagnostics.length = 2 ∧
    ((build (.only .work) []).context brokenWorkers).Batch report.journal.diagnostics := by
  have hLength : ((build ((Settings.only .work).stopping true) []).run brokenWorkers
      MemoryStore.empty).result.toOption.map (·.journal.diagnostics.length) = some 2 := by
    decide +kernel
  have hOk : ((build ((Settings.only .work).stopping true) []).run brokenWorkers
      MemoryStore.empty).result.isOk = true := by decide +kernel
  obtain ⟨report, hRun⟩ := exists_report hOk
  rw [hRun] at hLength
  exact ⟨report, hRun, Option.some.inj hLength, fail_fast_single_batch (.only .work) brokenWorkers
    MemoryStore.empty report MemoryStore.quiet hRun⟩

/-- A run that stops early may still report more than one declaration. -/
theorem fail_fast_blames_two_scopes : ∃ report : Report,
    ((build ((Settings.only .work).stopping true) []).run bareScopes MemoryStore.empty).result =
      .ok report ∧
    ¬ ∃ name, ∀ d ∈ report.journal.diagnostics, d.declaration = some name := by
  have hNames : ((build ((Settings.only .work).stopping true) []).run bareScopes
      MemoryStore.empty).result.toOption.map (·.journal.diagnostics.map (·.declaration)) =
        some [some firstOne.canonical, some secondOne.canonical] := by decide +kernel
  have hOk : ((build ((Settings.only .work).stopping true) []).run bareScopes
      MemoryStore.empty).result.isOk = true := by decide +kernel
  obtain ⟨report, hRun⟩ := exists_report hOk
  rw [hRun] at hNames
  refine ⟨report, hRun, ?_⟩
  rintro ⟨name, hAll⟩
  have hEach : ∀ d ∈ report.journal.diagnostics.map (·.declaration), d = some name := by
    simpa using hAll
  have hList : report.journal.diagnostics.map (·.declaration) =
    [some firstOne.canonical, some secondOne.canonical] := Option.some.inj hNames
  rw [hList] at hEach
  have hSame : firstOne.canonical = secondOne.canonical := by
    have hFirst := hEach _ List.mem_cons_self
    have hSecond := hEach _ (List.mem_cons_of_mem _ List.mem_cons_self)
    exact Option.some.inj (hFirst.trans hSecond.symm)
  exact absurd hSame (by decide)

end Pipeline

end Bindery
