import Bindery.Proofs.Scope.ParentChain

/-! # Walks to the ancestors of a scope

The bounded walk says what lies above a scope: its result is the chain above the scope if there is
one, and otherwise a fault with the loop that the walk ran into. The bound is never met, since a
walk that is still going on has left a configured scope behind with every step.
-/

namespace Bindery.ScopeGraph

variable {g : ScopeGraph}

/-- A walk that stands at a scope, with the scopes behind it. -/
structure Walk (g : ScopeGraph) (front : List ClassName) (s : ClassName) : Prop where
  linked : (front ++ [s]).IsChain g.Link
  fresh : (front ++ [s]).Nodup

namespace Walk

theorem start (g : ScopeGraph) (s : ClassName) : g.Walk [] s := ⟨.singleton s, by simp⟩

theorem step {front : List ClassName} {s p : ClassName} (h : g.Walk front s)
    (hLink : g.Link s p) (hNew : p ∉ front ++ [s]) : g.Walk (front ++ [s]) p where
  linked := h.linked.append_overlap (List.isChain_pair.mpr hLink) (by simp)
  fresh := by
    refine List.nodup_append.mpr ⟨h.fresh, by simp, ?_⟩
    rintro a hFront b hLast rfl
    exact hNew (List.mem_singleton.mp hLast ▸ hFront)

/-- The scopes behind a walk are distinct and have parents. -/
theorem length_le {front : List ClassName} {s : ClassName} (h : g.Walk front s) :
    front.length ≤ g.size :=
  length_le_size (List.nodup_append.mp h.fresh).1 (exists_link_of_isChain h.linked)

/-- The induction on the bound, over all walks that may have come to a scope. A walk ends at a scope
without a parent or where it comes for the second time, before the bound is met. -/
@[elab_as_elim]
theorem induction {motive : Nat → List ClassName → ClassName → Prop}
    (hRoot : ∀ bound front s, g.parentOf? s = none → motive (bound + 1) front s)
    (hLoop : ∀ bound front s p, g.Walk front s → g.Link s p → p ∈ front ++ [s] →
      motive (bound + 1) front s)
    (hStep : ∀ bound front s p, g.Walk (front ++ [s]) p → g.Link s p → p ∉ front ++ [s] →
      motive bound (front ++ [s]) p → motive (bound + 1) front s)
    (bound : Nat) {front : List ClassName} {s : ClassName} (hWalk : g.Walk front s)
    (hBound : g.size < front.length + bound) : motive bound front s := by
  induction bound generalizing front s with
  | zero =>
    have hLength := hWalk.length_le
    omega
  | succ bound ih =>
    cases hParent : g.parentOf? s with
    | none => exact hRoot bound front s hParent
    | some p =>
      by_cases hMet : p ∈ front ++ [s]
      · exact hLoop bound front s p hWalk hParent hMet
      · have hNext := hWalk.step hParent hMet
        have hBound' : g.size < (front ++ [s]).length + bound := by
          simp only [List.length_append, List.length_singleton]
          omega
        exact hStep bound front s p hNext hParent hMet (ih hNext hBound')

end Walk

theorem climb_link {bound : Nat} {path : List ClassName} {s p : ClassName} (hLink : g.Link s p)
    (hNew : p ∉ path) :
    g.climb (bound + 1) path s = (g.climb bound (path ++ [p]) p).map (p :: ·) := by
  have hParent : g.parentOf? s = some p := hLink
  simp only [climb, hParent, List.contains_eq_mem, decide_eq_true_eq, if_neg hNew]

theorem climb_loop {bound : Nat} {path : List ClassName} {s p : ClassName} (hLink : g.Link s p)
    (hMet : p ∈ path) : g.climb (bound + 1) path s = .error (cycle (path ++ [p])) := by
  have hParent : g.parentOf? s = some p := hLink
  simp only [climb, hParent, List.contains_eq_mem, decide_eq_true_eq, if_pos hMet]

/-- A walk leads to the chain above its scope or into a loop. -/
theorem climb_chain_or_loop (bound : Nat) {front : List ClassName} {s : ClassName}
    (hWalk : g.Walk front s) (hBound : g.size < front.length + bound) :
    (∃ chain, g.climb bound (front ++ [s]) s = .ok chain ∧ g.ChainAbove s chain) ∨
    (∃ path last, g.climb bound (front ++ [s]) s = .error (cycle (front ++ s :: path ++ [last])) ∧
      (front ++ s :: path ++ [last]).IsChain g.Link ∧ (front ++ s :: path).Nodup ∧
      last ∈ front ++ s :: path) := by
  refine Walk.induction ?_ ?_ ?_ bound hWalk hBound
  · intro bound front s hParent
    exact .inl ⟨[], by rw [climb, hParent], .root hParent⟩
  · intro bound front s p hWalk hLink hMet
    refine .inr ⟨[], p, climb_loop hLink hMet, ?_, hWalk.fresh, hMet⟩
    exact hWalk.linked.append_overlap (List.isChain_pair.mpr hLink) (by simp)
  · intro bound front s p _ hLink hNew hRest
    rw [climb_link hLink hNew]
    rcases hRest with ⟨chain, hClimb, hAbove⟩ | ⟨path, last, hClimb, hLinked, hFresh, hReturn⟩
    · exact .inl ⟨p :: chain, by rw [hClimb]; rfl, .step hLink hAbove⟩
    · refine .inr ⟨p :: path, last, ?_, ?_, ?_, ?_⟩
      · rw [hClimb]
        simp [Except.map]
      · simpa using hLinked
      · simpa using hFresh
      · simpa using hReturn

/-- What a larger bound allows is never used. -/
theorem climb_add_bound (bound extra : Nat) {front : List ClassName} {s : ClassName}
    (hWalk : g.Walk front s) (hBound : g.size < front.length + bound) :
    g.climb (bound + extra) (front ++ [s]) s = g.climb bound (front ++ [s]) s := by
  refine Walk.induction ?_ ?_ ?_ bound hWalk hBound
  · intro bound front s hParent
    rw [Nat.succ_add, climb, climb, hParent]
  · intro bound front s p _ hLink hMet
    rw [Nat.succ_add, climb_loop hLink hMet, climb_loop hLink hMet]
  · intro bound front s p _ hLink hNew hRest
    rw [Nat.succ_add, climb_link hLink hNew, climb_link hLink hNew, hRest]

theorem ancestors_chain_or_loop (g : ScopeGraph) (s : ClassName) :
    (∃ chain, g.ancestors s = .ok chain ∧ g.ChainAbove s chain) ∨
    (∃ front last, g.ancestors s = .error (cycle (front ++ [last])) ∧ g.Loop s front last) := by
  rcases climb_chain_or_loop (g.size + 1) (.start g s) (by simp) with
    hChain | ⟨path, last, hClimb, hLinked, hFresh, hReturn⟩
  · exact .inl hChain
  · exact .inr ⟨s :: path, last, hClimb, ⟨rfl, hLinked, hFresh, hReturn⟩⟩

theorem ancestors_eq_ok_iff {s : ClassName} {chain : List ClassName} :
    g.ancestors s = .ok chain ↔ g.ChainAbove s chain := by
  rcases g.ancestors_chain_or_loop s with ⟨found, hOk, hAbove⟩ | ⟨front, last, hError, hLoop⟩
  · rw [hOk]
    constructor
    · rintro ⟨⟩
      exact hAbove
    · intro h
      rw [h.unique hAbove]
  · rw [hError]
    constructor
    · rintro ⟨⟩
    · intro h
      exact absurd hLoop.revisits h.not_revisits

/-- A walk for the nearest enabling ancestor is a walk along the same scopes that may end early. -/
theorem search_of_climb {f : Feature} {bound : Nat} {path chain : List ClassName} {s : ClassName}
    (h : g.climb bound path s = .ok chain) :
    g.search f bound path s = .ok (chain.find? fun a => g.enabled a f) := by
  induction bound generalizing path chain s with
  | zero => cases h
  | succ bound ih =>
    rw [climb] at h
    rw [search]
    cases hParent : g.parentOf? s with
    | none =>
      rw [hParent] at h
      cases h
      rfl
    | some p =>
      simp only [hParent] at h ⊢
      by_cases hMet : path.contains p
      · rw [if_pos hMet] at h
        cases h
      · rw [if_neg hMet] at h ⊢
        cases hRest : g.climb bound (path ++ [p]) p with
        | error fault =>
          rw [hRest] at h
          cases h
        | ok rest =>
          rw [hRest] at h
          cases h
          rw [ih hRest, List.find?_cons]
          cases g.enabled p f <;> rfl

theorem ChainAbove.nearestEnabling {s : ClassName} {chain : List ClassName}
    (h : g.ChainAbove s chain) (f : Feature) :
    g.nearestEnabling s f = .ok (chain.find? fun a => g.enabled a f) :=
  search_of_climb (ancestors_eq_ok_iff.mpr h)

end Bindery.ScopeGraph
