import Bindery.Proofs.Scope.Ancestors

/-! # Checking that the links to parents form a forest

The check leaves out scopes that an earlier walk has met. It agrees with the check that walks from
every scope: what a walk without a fault has met lies on a chain, so a walk from there would not
have failed either, and the first walk that fails is the same in both.
-/

namespace Bindery.ScopeGraph

variable {g : ScopeGraph}

/-- The check without a shortcut: a walk from every scope, until one fails. -/
def walkAll (g : ScopeGraph) : List ClassName → Except Fault Unit
  | [] => .ok ()
  | s :: rest => (g.ancestors s).bind fun _ => g.walkAll rest

theorem map_scope_scopes (g : ScopeGraph) : g.scopes.map (·.scope) = g.byName.keys := by
  unfold scopes OrderedMap.values OrderedMap.keys
  rw [List.map_map]
  exact List.map_congr_left g.keyed

theorem walkAll_eq_ok_iff {l : List ClassName} :
    g.walkAll l = .ok () ↔ ∀ s ∈ l, ∃ chain, g.ChainAbove s chain := by
  induction l with
  | nil => simp [walkAll]
  | cons s rest ih =>
    rw [walkAll, List.forall_mem_cons, ← ih]
    constructor
    · intro h
      cases hWalk : g.ancestors s with
      | error fault =>
        rw [hWalk] at h
        cases h
      | ok chain =>
        rw [hWalk] at h
        exact ⟨⟨chain, ancestors_eq_ok_iff.mp hWalk⟩, h⟩
    · rintro ⟨⟨chain, hAbove⟩, hRest⟩
      rw [ancestors_eq_ok_iff.mpr hAbove]
      exact hRest

/-- The invariant of the loop is that every cleared scope has a chain above it. -/
theorem validateFrom_eq_walkAll {cleared : List ClassName}
    (hCleared : ∀ s ∈ cleared, ∃ chain, g.ChainAbove s chain) (l : List ClassName) :
    g.validateFrom cleared l = g.walkAll l := by
  induction l generalizing cleared with
  | nil => rfl
  | cons s rest ih =>
    rw [validateFrom, walkAll]
    by_cases hMet : s ∈ cleared
    · obtain ⟨chain, hAbove⟩ := hCleared s hMet
      rw [if_pos (by simpa using hMet), ancestors_eq_ok_iff.mpr hAbove]
      exact ih hCleared
    · rw [if_neg (by simpa using hMet)]
      cases hWalk : g.ancestors s with
      | error fault => rfl
      | ok chain =>
        have hAbove := ancestors_eq_ok_iff.mp hWalk
        apply ih
        intro a hMem
        rcases List.mem_append.mp hMem with hMem | hMem
        · rcases List.mem_cons.mp hMem with rfl | hMem
          · exact ⟨chain, hAbove⟩
          · obtain ⟨_, above, _, hRest⟩ := hAbove.split hMem
            exact ⟨above, hRest⟩
        · exact hCleared a hMem

theorem validate_eq_walkAll (g : ScopeGraph) :
    g.validate = g.walkAll (g.scopes.map (·.scope)) := by
  rw [map_scope_scopes]
  exact validateFrom_eq_walkAll (by simp) g.byName.keys

/-- In a forest every scope has a chain above it, whether it is configured or not. -/
theorem exists_chainAbove (hForest : g.validate = .ok ()) (s : ClassName) :
    ∃ chain, g.ChainAbove s chain := by
  cases hParent : g.parentOf? s with
  | none => exact ⟨[], .root hParent⟩
  | some p =>
    rw [validate_eq_walkAll, map_scope_scopes] at hForest
    exact walkAll_eq_ok_iff.mp hForest s (mem_keys_of_link hParent)

/-- The check for a forest fails where the first walk from a scope fails, in the order of names. A
walk from any scope fails just if the links lead to some scope twice; its fault then shows the path
up to the first such scope, with no more links than there are configured scopes. Otherwise it tells
the whole chain, without repetition. In either case it ends before its bound. -/
theorem validate_eq_walkAll_and_ancestors_chain_or_loop (g : ScopeGraph) :
    g.validate = g.walkAll (g.scopes.map (·.scope)) ∧
    ∀ s : ClassName,
      (g.Revisits s ↔ ∃ front last, g.ancestors s = .error (cycle (front ++ [last])) ∧
        g.Loop s front last ∧ front.length ≤ g.size) ∧
      (¬ g.Revisits s ↔ ∃ chain, g.ancestors s = .ok chain ∧
        g.ChainAbove s chain ∧ (s :: chain).Nodup) ∧
      ∀ extra, g.climb (g.size + 1 + extra) [s] s = g.ancestors s := by
  refine ⟨validate_eq_walkAll g, fun s => ⟨⟨?_, ?_⟩, ⟨?_, ?_⟩, fun extra =>
    climb_add_bound (g.size + 1) extra (.start g s) (by simp)⟩⟩
  · intro hRevisits
    rcases g.ancestors_chain_or_loop s with ⟨chain, _, hAbove⟩ | ⟨front, last, hError, hLoop⟩
    · exact absurd hRevisits hAbove.not_revisits
    · exact ⟨front, last, hError, hLoop, hLoop.length_le⟩
  · rintro ⟨front, last, _, hLoop, _⟩
    exact hLoop.revisits
  · intro hEnds
    rcases g.ancestors_chain_or_loop s with ⟨chain, hOk, hAbove⟩ | ⟨front, last, _, hLoop⟩
    · exact ⟨chain, hOk, hAbove, hAbove.nodup⟩
    · exact absurd hLoop.revisits hEnds
  · rintro ⟨chain, _, hAbove, _⟩
    exact hAbove.not_revisits

end Bindery.ScopeGraph
