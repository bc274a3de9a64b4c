import Bindery.Proofs.Run.Account

/-! # Accounts of the recording steps

What emitting, diagnosing and skipping add to an account. Emitting may fail for the names or for the
store, so its account is read off a run that succeeded; diagnosing fails just for fatal faults, and
skipping never does.
-/

namespace Bindery.Context

open Run

variable {σ : Type} [Store σ] {ctx : Context}

/-- The diagnostic that stands for a fault. -/
def diagnosticOf (ctx : Context) (generator : String) (fault : Fault) : Diagnostic where
  generator := generator
  kind := fault.kind
  declaration := fault.declaration?
  sourceFile := ctx.sourceFileOf fault.declaration?
  message := fault.message

/-! ## Diagnostics -/

theorem diagnose_yields {fault : Fault} (hNotFatal : fault.isFatal = false) (generator : String)
    (s : Session σ) : (ctx.diagnose generator fault : Run σ Unit).Yields s ()
      { diagnostics := [ctx.diagnosticOf generator fault] } := by
  unfold diagnose
  rw [hNotFatal]
  have hRecord (s₁ : Session σ) : (modify fun s => { s with
      journal.diagnostics := s.journal.diagnostics ++ [ctx.diagnosticOf generator fault] } :
      Run σ Unit).Yields s₁ () { diagnostics := [ctx.diagnosticOf generator fault] } :=
    ⟨_, gives_modify.mpr rfl, .nil _, by simp, rfl, by simp, rfl⟩
  exact (yields_remark s _ _ _).bind hRecord

omit [Store σ] in
theorem not_fatal_of_diagnose {fault : Fault} {generator : String} {s s' : Session σ} {u : Unit}
    (h : (ctx.diagnose generator fault : Run σ Unit).Gives s u s') : fault.isFatal = false := by
  unfold diagnose at h
  cases hFatal : fault.isFatal with
  | false => rfl
  | true =>
    rw [hFatal] at h
    exact absurd h not_gives_throw

theorem diagnoseAll_yields (generator : String) {faults : List Fault}
    (hNotFatal : ∀ fault ∈ faults, fault.isFatal = false) (s : Session σ) :
    (ctx.diagnoseAll generator faults : Run σ Unit).Yields s ()
      { diagnostics := faults.map (ctx.diagnosticOf generator) } := by
  induction faults generalizing s with
  | nil => exact yields_pure s ()
  | cons fault rest ih =>
    obtain ⟨hFirst, hRest⟩ := List.forall_mem_cons.mp hNotFatal
    exact (diagnose_yields hFirst generator s).bind (ih hRest)

omit [Store σ] in
theorem not_fatal_of_diagnoseAll {generator : String} {faults : List Fault} {s s' : Session σ}
    {u : Unit} (h : (ctx.diagnoseAll generator faults : Run σ Unit).Gives s u s') :
    ∀ fault ∈ faults, fault.isFatal = false := by
  induction faults generalizing s with
  | nil => simp
  | cons fault rest ih =>
    obtain ⟨_, s₁, hFirst, hRest⟩ := gives_bind.mp h
    exact List.forall_mem_cons.mpr ⟨not_fatal_of_diagnose hFirst, ih hRest⟩

theorem grows_of_diagnoseAll {generator : String} {faults : List Fault} {s s' : Session σ}
    {u : Unit} (h : (ctx.diagnoseAll generator faults : Run σ Unit).Gives s u s') :
    s.Grows { diagnostics := faults.map (ctx.diagnosticOf generator) } s' :=
  ((diagnoseAll_yields generator (not_fatal_of_diagnoseAll h) s).of_gives h).2

/-! ## Skips -/

theorem skip_yields (k : Skip) (s : Session σ) :
    (ctx.skip k : Run σ Unit).Yields s () { skips := [k] } := by
  have hRecord (s₁ : Session σ) : (modify fun s => { s with
      journal.skips := s.journal.skips ++ [k] } : Run σ Unit).Yields s₁ () { skips := [k] } :=
    ⟨_, gives_modify.mpr rfl, .nil _, by simp, by simp, rfl, rfl⟩
  exact (yields_remark s _ _ _).bind hRecord

/-! ## Units -/

omit [Store σ] in
/-- Claiming changes nothing but the claimed names. -/
theorem names_of_claimAll {c : Claim} {names : List ClassName} {s s' : Session σ} {u : Unit}
    (h : (claimAll c names : Run σ Unit).Gives s u s') :
    ∃ claimed, s' = { s with names := claimed } := by
  induction names generalizing s with
  | nil =>
    obtain ⟨_, rfl⟩ := gives_pure.mp h
    exact ⟨s.names, rfl⟩
  | cons name rest ih =>
    simp only [claimAll, gives_bind, gives_get, gives_ofExcept, gives_set] at h
    obtain ⟨_, _, ⟨rfl, rfl⟩, claimed, _, ⟨_, rfl⟩, _, _, rfl, hRest⟩ := h
    obtain ⟨after, rfl⟩ := ih hRest
    exact ⟨after, rfl⟩

theorem taken_of_keep {u : GeneratedUnit} {s s' : Session σ} {v : Unit}
    (h : (keep u : Run σ Unit).Gives s v s') : (Store.emit s.store u).result = .ok () ∧
      ∃ notes, s' = { s with store := (Store.emit s.store u).store, notes } := by
  simp only [keep, gives_bind, gives_get, gives_set, gives_ofExcept] at h
  obtain ⟨_, _, ⟨rfl, rfl⟩, _, _, rfl, hTaken, rfl⟩ := h
  exact ⟨hTaken, _, rfl⟩

theorem grows_of_emit {generator : String} {file : Source.File} {origin : Declaration}
    {s s' : Session σ} {u : Unit} (h : (ctx.emit generator file origin : Run σ Unit).Gives s u s') :
    s.Grows { deliveries := [⟨generator, file, origin⟩] } s' := by
  simp only [emit, gives_bind, gives_ofExcept, remark, gives_note, gives_modify] at h
  obtain ⟨names, _, ⟨_, rfl⟩, _, s₁, hClaim, _, s₂, hKeep, _, _, rfl, rfl⟩ := h
  obtain ⟨claimed, rfl⟩ := names_of_claimAll hClaim
  obtain ⟨hTaken, notes, rfl⟩ := taken_of_keep hKeep
  exact ⟨.cons hTaken (.nil _), rfl, by simp, by simp, rfl⟩

end Bindery.Context
