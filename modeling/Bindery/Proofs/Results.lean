/-! # Results of steps that may fail

A result is a value or a fault. It is known from the parts of a composed step which of them it is.
-/

namespace Bindery

variable {ε ε' α β : Type}

theorem bind_eq_ok_iff {r : Except ε α} {f : α → Except ε β} {b : β} :
    r >>= f = .ok b ↔ ∃ a, r = .ok a ∧ f a = .ok b := by
  cases r with
  | ok a =>
    constructor
    · intro h
      exact ⟨a, rfl, h⟩
    · rintro ⟨_, ⟨⟩, h⟩
      exact h
  | error e =>
    constructor
    · rintro ⟨⟩
    · rintro ⟨_, ⟨⟩, _⟩

theorem bind_eq_error_iff {r : Except ε α} {f : α → Except ε β} {e : ε} :
    r.bind f = .error e ↔ r = .error e ∨ ∃ a, r = .ok a ∧ f a = .error e := by
  cases r <;> simp [Except.bind]

theorem map_eq_ok_iff {r : Except ε α} {f : α → β} {b : β} :
    r.map f = .ok b ↔ ∃ a, r = .ok a ∧ f a = b := by
  cases r <;> simp [Except.map]

theorem mapError_eq_ok_iff {r : Except ε α} {f : ε → ε'} {a : α} :
    r.mapError f = .ok a ↔ r = .ok a := by
  cases r with
  | ok b =>
    constructor
    · rintro ⟨⟩
      rfl
    · rintro ⟨⟩
      rfl
  | error e => exact ⟨nofun, nofun⟩

theorem toOption_eq_some_iff {r : Except ε α} {a : α} : r.toOption = some a ↔ r = .ok a := by
  cases r <;> simp [Except.toOption]

/-- A list of results is made of results for its elements. -/
theorem forall_mem_of_mapM {f : α → Except ε β} {p : β → Prop} (h : ∀ a b, f a = .ok b → p b)
    {l : List α} {l' : List β} (hAll : l.mapM f = .ok l') : ∀ b ∈ l', p b := by
  induction l generalizing l' with
  | nil =>
    cases hAll
    exact fun _ hMem => nomatch hMem
  | cons a rest ih =>
    rw [List.mapM_cons] at hAll
    obtain ⟨b, hFirst, hAll⟩ := bind_eq_ok_iff.mp hAll
    obtain ⟨others, hRest, hSame⟩ := bind_eq_ok_iff.mp hAll
    cases hSame
    exact List.forall_mem_cons.mpr ⟨h a b hFirst, ih hRest⟩

end Bindery
