import Bindery.Proofs.Run.Outcome

/-! # Steps that fail

A step that does not succeed fails with a fault and leaves a session behind too. The rules below say
which part of a step it is that failed.
-/

namespace Bindery.Run

variable {σ α β : Type}

/-- The step fails with a fault and leaves a session behind. -/
def Fails (m : Run σ α) (s : Session σ) (fault : Fault) (s' : Session σ) : Prop :=
  m.outcome s = (.error fault, s')

theorem Gives.not_fails {m : Run σ α} {s s₁ s₂ : Session σ} {a : α} {fault : Fault}
    (h : m.Gives s a s₁) : ¬ m.Fails s fault s₂ := by
  intro hFails
  have hSame := h.symm.trans hFails
  simp at hSame

theorem gives_or_fails (m : Run σ α) (s : Session σ) :
    (∃ a s', m.Gives s a s') ∨ ∃ fault s', m.Fails s fault s' := by
  unfold Gives Fails
  cases m.outcome s with
  | mk result s' =>
    cases result with
    | ok a => exact .inl ⟨a, s', rfl⟩
    | error fault => exact .inr ⟨fault, s', rfl⟩

theorem fails_bind {m : Run σ α} {f : α → Run σ β} {s s' : Session σ} {fault : Fault} :
    (m >>= f).Fails s fault s' ↔
      m.Fails s fault s' ∨ ∃ a s₁, m.Gives s a s₁ ∧ (f a).Fails s₁ fault s' := by
  unfold Fails
  rw [outcome_bind]
  rcases m.gives_or_fails s with ⟨a, s₁, hGives⟩ | ⟨other, s₁, hFails⟩
  · have hFirst : m.outcome s = (.ok a, s₁) := hGives
    rw [hFirst]
    constructor
    · intro h
      exact .inr ⟨a, s₁, hFirst, h⟩
    · rintro (h | ⟨b, s₂, hOther, h⟩)
      · simp at h
      · obtain ⟨rfl, rfl⟩ := hGives.unique hOther
        exact h
  · have hFirst : m.outcome s = (.error other, s₁) := hFails
    rw [hFirst]
    constructor
    · intro h
      left
      simpa using h
    · rintro (h | ⟨b, s₂, hOther, _⟩)
      · simpa using h
      · exact absurd hFails hOther.not_fails

theorem fails_of_during {stretch : Stretch} {m : Run σ α} {s s' : Session σ} {fault : Fault}
    (h : (during stretch m).Fails s fault s') :
    ∃ s₁ notes, m.Fails s fault s₁ ∧ s' = { s₁ with notes } := by
  unfold Fails at h ⊢
  rw [outcome_during] at h
  obtain ⟨hResult, rfl⟩ := Prod.mk.inj h
  exact ⟨(m.outcome s).2, _, by rw [← hResult], rfl⟩

end Bindery.Run
