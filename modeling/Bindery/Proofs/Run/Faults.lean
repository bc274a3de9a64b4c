import Bindery.Proofs.Run.Turns

/-! # How a run of the built-in generators fails

A run into an empty store fails because the parents of scopes form a cycle, and then before anything
is stored, or because something would be made twice. Nothing else that a step may fail with is ever
met: what the steps rely on holds in the context of every run.
-/

namespace Bindery

open Run

namespace Context

variable {ctx : Context}

theorem performs_runGenerators {l : List Generator} (hBuiltIn : ∀ g ∈ l, g ∈ Pipeline.builtIn) :
    ctx.Performs (fun d => ctx.Sound → d.Due ctx) (runGenerators ctx l) fun _ => True :=
  (composed_runGenerators hBuiltIn fun _ _ _ hSigned => hSigned.2).performs ctx.failFast

end Context

theorem Run.follows_finish {t : SymbolTable} :
    (finish : Run MemoryStore Unit).Follows t (· = some ((), [])) := by
  refine follows_of_gives (f := fun s => { s with notes := s.notes ++ [] }) (fun s => rfl) ?_
  intro s l h
  exact h.of_quiet rfl rfl rfl h.cached

namespace Pipeline

open Context

theorem performs_steps (p : Pipeline) (ctx : Context) {faults : List Fault}
    (hBuiltIn : ∀ g ∈ p.generators, g ∈ builtIn)
    (hNotFatal : ∀ fault ∈ faults, fault.isFatal = false) :
    ctx.Performs (fun d => ctx.Sound → d.Due ctx) (p.steps ctx faults) fun _ => True := by
  have hEnd : ctx.Performs (fun d => ctx.Sound → d.Due ctx) (do
      Run.finish
      Run.note { level := .info, target := noteTarget, message := "Generation finished"
                 fields := ["units", "diagnostics", "skips", "elapsed_ms"] } :
      Run MemoryStore Unit) fun _ => True :=
    performs_behind follows_finish (performs_of_quiet (follows_note _) trivial)
  refine performs_behind (follows_note _)
    (performs_behind (follows_diagnoseAll hNotFatal scopeGraphId) ?_)
  refine performs_shouldStop.bind fun b _ => ?_
  cases b with
  | true => exact hEnd
  | false => exact (performs_runGenerators hBuiltIn).bind fun _ _ => hEnd

theorem mem_builtIn_of_mem_generators {settings : Settings} {g : Generator}
    (hMem : g ∈ (build settings []).generators) : g ∈ builtIn :=
  (mem_of_mem_generators hMem).resolve_right List.not_mem_nil

/-- Over a forest of scopes the steps book what is due, or something would be made twice. -/
theorem due_or_clash (settings : Settings) {t : SymbolTable}
    (hForest : (ScopeGraph.build t).1.validate = .ok ()) :
    (∃ s' l, ((build settings []).steps ((build settings []).context t)
        (ScopeGraph.build t).2).Gives (begin t MemoryStore.empty) () s' ∧ s'.InOrder t l ∧
        ∀ d ∈ l, d.Due ((build settings []).context t)) ∨
      ∃ fault s', ((build settings []).steps ((build settings []).context t)
        (ScopeGraph.build t).2).Fails (begin t MemoryStore.empty) fault s' ∧ fault.IsClash := by
  have hSound : ((build settings []).context t).Sound := ⟨rfl, hForest⟩
  have hNotFatal : ∀ fault ∈ (ScopeGraph.build t).2, fault.isFatal = false :=
    fun _ => ScopeGraph.not_fatal_of_mem_build
  obtain ⟨plans, hFollows, hAllows, _⟩ := performs_steps (build settings [])
    ((build settings []).context t) (fun _ => mem_builtIn_of_mem_generators) hNotFatal
  rcases hFollows (begin t MemoryStore.empty) [] (Session.inOrder_start t _) with
    ⟨_, s', l, hGives, hEnd, hPlan⟩ | ⟨fault, s', hFails, hNone | ⟨hClash, _⟩⟩
  · refine .inl ⟨s', l, hGives, hEnd, fun d hMem => ?_⟩
    exact ((hAllows _ hPlan).made _ l rfl).2 d hMem hSound
  · exact absurd rfl ((hAllows none hNone).sound hSound)
  · exact .inr ⟨fault, s', hFails, hClash⟩

theorem run_of_cycle {σ : Type} [Store σ] {p : Pipeline} {t : SymbolTable} {fault : Fault}
    (store : σ) (hCycle : (ScopeGraph.build t).1.validate = .error fault) :
    (p.run t store).result = .error fault ∧ (p.run t store).store = store := by
  unfold run
  simp only [hCycle, and_self]

/-- Over a forest of scopes a run into an empty store fails just for what would be made twice. -/
theorem clash_of_forest {settings : Settings} {t : SymbolTable}
    (hForest : (ScopeGraph.build t).1.validate = .ok ()) {fault : Fault}
    (hFails : ((build settings []).run t MemoryStore.empty).result = .error fault) :
    fault.IsClash := by
  rw [run_of_forest MemoryStore.empty hForest] at hFails
  rcases due_or_clash settings hForest with ⟨s', _, hGives, _⟩ | ⟨other, s', hOther, hClash⟩
  · rw [show _ = _ from hGives] at hFails
    cases hFails
  · rw [show _ = _ from hOther] at hFails
    cases hFails
    exact hClash

/-- A run of the built-in generators into an empty store fails for a cycle of scopes or for a clash.
It fails for a cycle just if the parents that the table configures form one, and then nothing is
stored. -/
theorem run_fails_by_cycle_or_clash (settings : Settings) (t : SymbolTable) :
    (∀ fault, ((build settings []).run t MemoryStore.empty).result = .error fault →
      fault.kind = "ScopeCycle" ∨ fault.kind = "NameCollision" ∨ fault.kind = "EmissionConflict") ∧
    ((∃ fault, ((build settings []).run t MemoryStore.empty).result = .error fault ∧
      fault.kind = "ScopeCycle") ↔ ∃ s, Relation.TransGen t.ParentLink s s) ∧
    ((∃ s, Relation.TransGen t.ParentLink s s) →
      ((build settings []).run t MemoryStore.empty).store = MemoryStore.empty) := by
  have hLink : (ScopeGraph.build t).1.Link = t.ParentLink := by
    funext s p
    exact propext ScopeGraph.link_build_iff
  rw [← hLink, ← ScopeGraph.validate_fails_iff]
  cases hCheck : (ScopeGraph.build t).1.validate with
  | error cycle =>
    obtain ⟨hResult, hStore⟩ := run_of_cycle (p := build settings []) MemoryStore.empty hCheck
    have hKind := ScopeGraph.kind_of_validate hCheck
    rw [hResult, hStore]
    refine ⟨?_, ?_, fun _ => rfl⟩
    · rintro fault ⟨⟩
      exact .inl hKind
    · exact ⟨fun _ => ⟨cycle, rfl⟩, fun _ => ⟨cycle, rfl, hKind⟩⟩
  | ok =>
    have hClash : ∀ fault, ((build settings []).run t MemoryStore.empty).result = .error fault →
        fault.IsClash := fun _ => clash_of_forest hCheck
    refine ⟨fun fault hFails => .inr (hClash fault hFails), ⟨?_, nofun⟩, nofun⟩
    rintro ⟨fault, hFails, hKind⟩
    have hOther := hClash fault hFails
    rw [Fault.IsClash, hKind] at hOther
    exact absurd hOther (by decide)

end Pipeline

end Bindery
