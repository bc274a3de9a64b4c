import Bindery.Proofs.Run.Ledger

/-! # Emitting units one after the other

A store answers to a unit whether its key was still free. A unit whose key is taken names the
generator of the unit that took it, and this is the first unit of the sequence with that key.
-/

namespace Bindery

/-- Emits units one after the other. The results are kept, those of rejected units too. -/
def Store.emitAll {σ : Type} [Store σ] (store : σ) :
    List GeneratedUnit → List (Except Fault Unit) × σ
  | [] => ([], store)
  | u :: rest =>
    let outcome := Store.emit store u
    let remaining := Store.emitAll outcome.store rest
    (outcome.result :: remaining.1, remaining.2)

/-- The answer to a unit behind earlier ones. -/
def verdict (earlier : List GeneratedUnit) (u : GeneratedUnit) : Except Fault Unit :=
  match earlier.find? fun v => v.key = u.key with
  | some first => .error (emissionConflict u.key first.generator u.generator)
  | none => .ok ()

/-- The answers to units behind earlier ones. -/
def verdicts (earlier : List GeneratedUnit) : List GeneratedUnit → List (Except Fault Unit)
  | [] => []
  | u :: rest => verdict earlier u :: verdicts (earlier ++ [u]) rest

/-- The units of a sequence that were taken, by the results of their emissions. -/
def accepted (units : List GeneratedUnit) (results : List (Except Fault Unit)) :
    List GeneratedUnit :=
  (units.zip results).filterMap fun (u, result) =>
    match result with
    | .ok () => some u
    | .error _ => none

namespace MemoryStore

variable {m : MemoryStore} {u : GeneratedUnit}

theorem emit_of_some {first : GeneratedUnit} (h : m.get? u.key = some first) :
    m.emit u = ⟨.error (emissionConflict u.key first.generator u.generator), m, []⟩ := by
  rw [emit, h]

theorem emit_of_none (h : m.get? u.key = none) : m.emit u = ⟨.ok (), m.put u, [keptNote]⟩ := by
  rw [emit, h]

/-- The store holds the first unit of each key. -/
def HoldsFirst (m : MemoryStore) (earlier : List GeneratedUnit) : Prop :=
  ∀ key, m.get? key = earlier.find? fun v => v.key = key

theorem HoldsFirst.emit {earlier : List GeneratedUnit} (h : m.HoldsFirst earlier)
    (u : GeneratedUnit) : (m.emit u).result = verdict earlier u ∧
      (m.emit u).store.HoldsFirst (earlier ++ [u]) := by
  cases hFind : m.get? u.key with
  | some first =>
    rw [emit_of_some hFind]
    have hEarlier := hFind
    rw [h] at hEarlier
    refine ⟨by rw [verdict, hEarlier], fun key => ?_⟩
    rw [List.find?_append, ← h]
    by_cases hKey : u.key = key
    · rw [← hKey, hFind]
      rfl
    · simp [hKey]
  | none =>
    rw [emit_of_none hFind]
    have hEarlier := hFind
    rw [h] at hEarlier
    refine ⟨by rw [verdict, hEarlier], fun key => ?_⟩
    rw [List.find?_append, ← h, get?_put]
    by_cases hKey : u.key = key
    · rw [if_pos hKey, ← hKey, hFind]
      simp
    · simp [hKey]

theorem HoldsFirst.emitAll {earlier : List GeneratedUnit} (h : m.HoldsFirst earlier)
    (units : List GeneratedUnit) : (Store.emitAll m units).1 = verdicts earlier units := by
  induction units generalizing m earlier with
  | nil => rfl
  | cons u rest ih =>
    obtain ⟨hResult, hNext⟩ := h.emit u
    rw [verdicts, ← hResult, ← ih hNext]
    rfl

theorem holdsFirst_empty : empty.HoldsFirst [] := fun _ => rfl

/-- The store has taken exactly the units to which it answered with success. -/
theorem units_emitAll_perm (m : MemoryStore) (units : List GeneratedUnit) :
    (Store.emitAll m units).2.units.Perm
      (accepted units (Store.emitAll m units).1 ++ m.units) := by
  induction units generalizing m with
  | nil => exact .refl _
  | cons u rest ih =>
    have hRest := ih (m.emit u).store
    change (Store.emitAll (m.emit u).store rest).2.units.Perm (accepted (u :: rest)
      ((m.emit u).result :: (Store.emitAll (m.emit u).store rest).1) ++ m.units)
    cases hFind : m.get? u.key with
    | some first =>
      rw [emit_of_some hFind] at hRest ⊢
      exact hRest
    | none =>
      rw [emit_of_none hFind] at hRest ⊢
      exact hRest.trans (((units_put_perm hFind).append_left _).trans List.perm_middle)

end MemoryStore

end Bindery
