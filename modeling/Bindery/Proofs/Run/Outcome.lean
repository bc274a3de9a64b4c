import Bindery.Run.Generator

/-! # What steps of a run give

A step that succeeds gives a result and leaves a session behind. The rules below take a step apart
into its parts, so that nothing else has to look inside the monad.
-/

namespace Bindery.Run

variable {σ α β : Type}

/-- What comes of a step, together with the session that it leaves behind. -/
def outcome (m : Run σ α) (s : Session σ) : Except Fault α × Session σ := m.run s

/-- The step succeeds with a result and leaves a session behind. -/
def Gives (m : Run σ α) (s : Session σ) (a : α) (s' : Session σ) : Prop :=
  m.outcome s = (.ok a, s')

theorem Gives.unique {m : Run σ α} {s s₁ s₂ : Session σ} {a b : α} (h₁ : m.Gives s a s₁)
    (h₂ : m.Gives s b s₂) : a = b ∧ s₁ = s₂ := by
  have h := h₁.symm.trans h₂
  simpa using h

theorem outcome_bind (m : Run σ α) (f : α → Run σ β) (s : Session σ) :
    (m >>= f).outcome s = match m.outcome s with
      | (.ok a, s₁) => (f a).outcome s₁
      | (.error fault, s₁) => (.error fault, s₁) := by
  unfold outcome
  simp only [bind, ExceptT.bind, ExceptT.mk, ExceptT.run, StateT.bind]
  cases m s with
  | mk r s₁ => cases r <;> rfl

@[simp] theorem gives_pure {s s' : Session σ} {a b : α} :
    (pure a : Run σ α).Gives s b s' ↔ a = b ∧ s = s' := by
  constructor
  · rintro ⟨⟩
    exact ⟨rfl, rfl⟩
  · rintro ⟨rfl, rfl⟩
    rfl

@[simp] theorem gives_bind {m : Run σ α} {f : α → Run σ β} {s s' : Session σ} {b : β} :
    (m >>= f).Gives s b s' ↔ ∃ a s₁, m.Gives s a s₁ ∧ (f a).Gives s₁ b s' := by
  unfold Gives
  rw [outcome_bind]
  constructor
  · intro h
    cases hFirst : m.outcome s with
    | mk r s₁ =>
      rw [hFirst] at h
      cases r with
      | ok a => exact ⟨a, s₁, rfl, h⟩
      | error fault => cases h
  · rintro ⟨a, s₁, hFirst, hThen⟩
    rw [hFirst]
    exact hThen

@[simp] theorem gives_get {s s' a : Session σ} :
    (get : Run σ (Session σ)).Gives s a s' ↔ s = a ∧ s = s' := by
  constructor
  · rintro ⟨⟩
    exact ⟨rfl, rfl⟩
  · rintro ⟨rfl, rfl⟩
    rfl

@[simp] theorem gives_set {s t s' : Session σ} {u : PUnit} :
    (set t : Run σ PUnit).Gives s u s' ↔ t = s' := by
  constructor
  · rintro ⟨⟩
    rfl
  · rintro rfl
    rfl

@[simp] theorem gives_modify {f : Session σ → Session σ} {s s' : Session σ} {u : PUnit} :
    (modify f : Run σ PUnit).Gives s u s' ↔ f s = s' := by
  constructor
  · rintro ⟨⟩
    rfl
  · rintro rfl
    rfl

@[simp] theorem not_gives_throw {fault : Fault} {s s' : Session σ} {a : α} :
    ¬ (throw fault : Run σ α).Gives s a s' := by
  rintro ⟨⟩

@[simp] theorem gives_ofExcept {r : Except Fault α} {s s' : Session σ} {a : α} :
    (ofExcept r : Run σ α).Gives s a s' ↔ r = .ok a ∧ s = s' := by
  constructor
  · rintro ⟨⟩
    exact ⟨rfl, rfl⟩
  · rintro ⟨rfl, rfl⟩
    rfl

@[simp] theorem gives_note {n : Note} {s s' : Session σ} {u : Unit} :
    (note n : Run σ Unit).Gives s u s' ↔ { s with notes := s.notes ++ [n] } = s' := gives_modify

theorem outcome_during (stretch : Stretch) (m : Run σ α) (s : Session σ) :
    (during stretch m).outcome s = ((m.outcome s).1, { (m.outcome s).2 with
      notes := (m.outcome s).2.notes.take s.notes.length ++
        ((m.outcome s).2.notes.drop s.notes.length).map (Note.during stretch) }) := rfl

/-- A stretch changes nothing but the notes of its step. -/
theorem gives_of_during {stretch : Stretch} {m : Run σ α} {s s' : Session σ} {a : α}
    (h : (during stretch m).Gives s a s') :
    ∃ s₁ notes, m.Gives s a s₁ ∧ s' = { s₁ with notes } := by
  unfold Gives at h ⊢
  rw [outcome_during] at h
  obtain ⟨hResult, rfl⟩ := Prod.mk.inj h
  exact ⟨(m.outcome s).2, _, by rw [← hResult], rfl⟩

theorem Gives.during {m : Run σ α} {s s' : Session σ} {a : α} (h : m.Gives s a s')
    (stretch : Stretch) : (during stretch m).Gives s a { s' with
      notes := s'.notes.take s.notes.length ++
        (s'.notes.drop s.notes.length).map (Note.during stretch) } := by
  unfold Gives at h ⊢
  rw [outcome_during, h]

/-- A run that collects diagnostics is never asked to stop. -/
theorem gives_shouldStop {ctx : Context} (hCollect : ctx.failFast = false) {s s' : Session σ}
    {b : Bool} : (ctx.shouldStop : Run σ Bool).Gives s b s' ↔ b = false ∧ s = s' := by
  simp only [Context.shouldStop, gives_bind, gives_get, gives_pure, hCollect, Bool.false_and]
  constructor
  · rintro ⟨_, _, ⟨rfl, rfl⟩, rfl, rfl⟩
    exact ⟨rfl, rfl⟩
  · rintro ⟨rfl, rfl⟩
    exact ⟨s, s, ⟨rfl, rfl⟩, rfl, rfl⟩

/-- A run that collects diagnostics always goes on. -/
theorem gives_unless_stopped {ctx : Context} (hCollect : ctx.failFast = false)
    {stopped m : Run σ α} {s s' : Session σ} {a : α} :
    (ctx.shouldStop >>= fun b => if b = true then stopped else m).Gives s a s' ↔
      m.Gives s a s' := by
  rw [gives_bind]
  constructor
  · rintro ⟨_, _, hStop, h⟩
    obtain ⟨rfl, rfl⟩ := (gives_shouldStop hCollect).mp hStop
    exact h
  · intro h
    exact ⟨false, s, (gives_shouldStop hCollect).mpr ⟨rfl, rfl⟩, h⟩

end Bindery.Run
