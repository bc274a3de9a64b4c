import Bindery.Proofs.Scope.Validation

/-! # Inheriting a feature

A scope inherits a feature if some scope strictly above enables it. The enabling scopes on a chain
are ordered by how near they are, and all of them but the last one inherit: only the enabling scope
next to the root does not.
-/

namespace Bindery.ScopeGraph

variable {g : ScopeGraph} {f : Feature} {s p : ClassName} {chain : List ClassName}

/-- Some scope strictly above enables the feature. -/
def Inherits (g : ScopeGraph) (f : Feature) (s : ClassName) : Prop :=
  ∃ p, Relation.TransGen g.Link s p ∧ g.enabled p f = true

theorem ChainAbove.inherits_iff (h : g.ChainAbove s chain) :
    g.Inherits f s ↔ ∃ p ∈ chain, g.enabled p f = true := by
  unfold Inherits
  constructor
  · rintro ⟨p, hAbove, hEnabled⟩
    exact ⟨p, h.mem_iff.mpr hAbove, hEnabled⟩
  · rintro ⟨p, hMem, hEnabled⟩
    exact ⟨p, h.mem_iff.mp hMem, hEnabled⟩

theorem ChainAbove.inherits_iff_isSome (h : g.ChainAbove s chain) :
    g.Inherits f s ↔ (chain.find? fun a => g.enabled a f).isSome = true := by
  rw [h.inherits_iff, List.find?_isSome]

/-- What follows a scope on a chain is the chain above it. -/
theorem ChainAbove.of_split {front rest : List ClassName} (h : g.ChainAbove s chain)
    (hList : s :: chain = front ++ p :: rest) : g.ChainAbove p rest := by
  induction front generalizing s chain with
  | nil =>
    obtain ⟨rfl, rfl⟩ := List.cons.inj hList
    exact h
  | cons a front ih =>
    obtain ⟨_, hChain⟩ := List.cons.inj hList
    cases h with
    | root _ => simp at hChain
    | step _ hAbove => exact ih hAbove hChain

/-- The enabling scope next to the root is the only one on the chain that does not inherit. -/
theorem ChainAbove.rootmost_iff (h : g.ChainAbove s chain) :
    ((s :: chain).filter fun a => g.enabled a f).getLast? = some p ↔
      p ∈ s :: chain ∧ g.enabled p f = true ∧ ¬ g.Inherits f p := by
  constructor
  · intro hLast
    obtain ⟨_, hFilter⟩ := List.getLast?_eq_some_iff.mp hLast
    obtain ⟨below, above, hList, _, hAbove⟩ := List.filter_eq_append_iff.mp hFilter
    obtain ⟨front, rest, rfl, _, hEnabled, hNone⟩ := List.filter_eq_cons_iff.mp hAbove
    rw [← List.append_assoc] at hList
    refine ⟨by simp [hList], hEnabled, ?_⟩
    rw [(h.of_split hList).inherits_iff]
    rintro ⟨q, hMem, hOther⟩
    exact List.filter_eq_nil_iff.mp hNone q hMem hOther
  · rintro ⟨hMem, hEnabled, hFree⟩
    obtain ⟨front, rest, hList⟩ := List.append_of_mem hMem
    have hNone : (rest.filter fun a => g.enabled a f) = [] := by
      refine List.filter_eq_nil_iff.mpr fun q hAbove hOther => hFree ?_
      exact (h.of_split hList).inherits_iff.mpr ⟨q, hAbove, hOther⟩
    rw [hList, List.filter_append, List.filter_cons, if_pos hEnabled, hNone]
    exact List.getLast?_concat

end Bindery.ScopeGraph
