import Bindery.Scope.Graph
import Mathlib.Data.List.Chain
import Mathlib.Data.List.Perm.Subperm
import Mathlib.Logic.Relation

/-! # Parent chains

What lies above a scope: either a chain that ends with a scope without a parent, or a loop. Links
to parents are a partial function, so no scope has both, and a chain has no scope twice. The number
of configured scopes bounds every path without repetition, because only they have parents.
-/

namespace Bindery.ScopeGraph

open Relation

variable {g : ScopeGraph}

/-- The scope names the other one as its parent. -/
def Link (g : ScopeGraph) (s p : ClassName) : Prop := g.parentOf? s = some p

/-- Following links from the scope leads to some scope twice. -/
def Revisits (g : ScopeGraph) (s : ClassName) : Prop :=
  ∃ a, ReflTransGen g.Link s a ∧ TransGen g.Link a a

/-- The whole chain above a scope, nearest first. -/
inductive ChainAbove (g : ScopeGraph) : ClassName → List ClassName → Prop where
  | root {s : ClassName} (hRoot : g.parentOf? s = none) : ChainAbove g s []
  | step {s p : ClassName} {chain : List ClassName} (hLink : g.Link s p)
      (hAbove : ChainAbove g p chain) : ChainAbove g s (p :: chain)

/-- A path along links from a scope that ends when it returns to one of its own scopes. -/
structure Loop (g : ScopeGraph) (s : ClassName) (front : List ClassName) (last : ClassName) :
    Prop where
  starts : front.head? = some s
  linked : (front ++ [last]).IsChain g.Link
  fresh : front.Nodup
  returns : last ∈ front

/-! ## Chains -/

namespace ChainAbove

theorem unique {s : ClassName} {chain other : List ClassName} (h : g.ChainAbove s chain)
    (h' : g.ChainAbove s other) : chain = other := by
  induction h generalizing other with
  | root hRoot =>
    cases h' with
    | root _ => rfl
    | step hLink _ => exact absurd (hRoot.symm.trans hLink) (by simp)
  | step hLink _ ih =>
    cases h' with
    | root hRoot => exact absurd (hRoot.symm.trans hLink) (by simp)
    | step hLink' hAbove' =>
      obtain rfl := Option.some.inj (hLink.symm.trans hLink')
      rw [ih hAbove']

/-- Behind a scope on the chain stands the chain of that scope. -/
theorem split {s p : ClassName} {chain : List ClassName} (h : g.ChainAbove s chain)
    (hMem : p ∈ chain) : ∃ front rest, chain = front ++ p :: rest ∧ g.ChainAbove p rest := by
  induction h with
  | root _ => cases hMem
  | @step s q chain hLink hAbove ih =>
    rcases List.mem_cons.mp hMem with rfl | hMem
    · exact ⟨[], chain, rfl, hAbove⟩
    · obtain ⟨front, rest, rfl, hRest⟩ := ih hMem
      exact ⟨q :: front, rest, rfl, hRest⟩

/-- A scope that stood above itself would have a chain that is longer than itself. -/
theorem self_notMem {s : ClassName} {chain : List ClassName} (h : g.ChainAbove s chain) :
    s ∉ chain := by
  intro hMem
  obtain ⟨front, rest, hChain, hRest⟩ := h.split hMem
  have hLength := congrArg List.length ((h.unique hRest).symm.trans hChain)
  simp only [List.length_append, List.length_cons] at hLength
  omega

theorem nodup {s : ClassName} {chain : List ClassName} (h : g.ChainAbove s chain) :
    (s :: chain).Nodup := by
  induction h with
  | root _ => simp
  | step hLink hAbove ih => exact List.nodup_cons.mpr ⟨(step hLink hAbove).self_notMem, ih⟩

theorem mem_iff {s p : ClassName} {chain : List ClassName} (h : g.ChainAbove s chain) :
    p ∈ chain ↔ TransGen g.Link s p := by
  induction h with
  | root hRoot =>
    refine ⟨fun hMem => absurd hMem List.not_mem_nil, fun hAbove => ?_⟩
    obtain ⟨q, hLink, _⟩ := TransGen.head'_iff.mp hAbove
    exact absurd (hRoot.symm.trans hLink) (by simp)
  | @step s q chain hLink _ ih =>
    rw [List.mem_cons, ih]
    constructor
    · rintro (rfl | hAbove)
      · exact .single hLink
      · exact .head hLink hAbove
    · intro hAbove
      obtain ⟨r, hLink', hAbove⟩ := TransGen.head'_iff.mp hAbove
      obtain rfl := Option.some.inj (hLink.symm.trans hLink')
      exact (reflTransGen_iff_eq_or_transGen.mp hAbove).imp id id

theorem not_revisits {s : ClassName} {chain : List ClassName} (h : g.ChainAbove s chain) :
    ¬ g.Revisits s := by
  rintro ⟨a, hReach, hLoop⟩
  rcases reflTransGen_iff_eq_or_transGen.mp hReach with rfl | hReach
  · exact h.self_notMem (h.mem_iff.mpr hLoop)
  · obtain ⟨_, rest, _, hRest⟩ := h.split (h.mem_iff.mpr hReach)
    exact hRest.self_notMem (hRest.mem_iff.mpr hLoop)

end ChainAbove

/-! ## Loops -/

theorem transGen_of_isChain_cons {s p : ClassName} {path : List ClassName}
    (h : (s :: path).IsChain g.Link) (hMem : p ∈ path) : TransGen g.Link s p := by
  have hPairwise := (h.imp fun _ _ => TransGen.single).pairwise
  exact (List.pairwise_cons.mp hPairwise).1 p hMem

theorem Loop.revisits {s last : ClassName} {front : List ClassName} (h : g.Loop s front last) :
    g.Revisits s := by
  obtain ⟨path, rfl⟩ : ∃ path, front = s :: path := List.head?_eq_some_iff.mp h.starts
  obtain ⟨before, after, hFront⟩ := List.append_of_mem h.returns
  have hLinked := h.linked
  rw [hFront, List.append_assoc] at hLinked
  refine ⟨last, ?_, transGen_of_isChain_cons hLinked.right_of_append (by simp)⟩
  rcases List.mem_cons.mp h.returns with rfl | hMem
  · exact .refl
  · exact (transGen_of_isChain_cons (h.linked.left_of_append) hMem).to_reflTransGen

/-! ## The number of configured scopes -/

theorem mem_keys_of_link {s p : ClassName} (h : g.Link s p) : s ∈ g.byName.keys := by
  unfold Link parentOf? configuration? OrderedMap.get? at h
  obtain ⟨c, hFound, _⟩ := Option.bind_eq_some_iff.mp h
  obtain ⟨e, hEntry, _⟩ := Option.map_eq_some_iff.mp hFound
  have hKey : e.1 = s := by simpa using List.find?_some hEntry
  exact hKey ▸ List.mem_map_of_mem (List.mem_of_find?_eq_some hEntry)

/-- Distinct scopes that all have parents are not more than the configured ones. -/
theorem length_le_size {path : List ClassName} (hFresh : path.Nodup)
    (hParents : ∀ s ∈ path, ∃ p, g.Link s p) : path.length ≤ g.size := by
  have hSubset : path ⊆ g.byName.keys := by
    intro s hMem
    obtain ⟨p, hLink⟩ := hParents s hMem
    exact mem_keys_of_link hLink
  have hLength := (hFresh.subperm hSubset).length_le
  simpa [OrderedMap.keys, size, OrderedMap.size] using hLength

/-- Every scope of a linked path but the last has a parent. -/
theorem exists_link_of_isChain {path : List ClassName} {last : ClassName}
    (h : (path ++ [last]).IsChain g.Link) : ∀ s ∈ path, ∃ p, g.Link s p := by
  induction path with
  | nil => simp
  | cons first path ih =>
    intro s hMem
    rcases List.mem_cons.mp hMem with rfl | hMem
    · cases path with
      | nil => exact ⟨last, (List.isChain_cons_cons.mp h).1⟩
      | cons next path => exact ⟨next, (List.isChain_cons_cons.mp h).1⟩
    · exact ih h.tail s hMem

theorem Loop.length_le {s last : ClassName} {front : List ClassName} (h : g.Loop s front last) :
    front.length ≤ g.size :=
  length_le_size h.fresh (exists_link_of_isChain h.linked)

end Bindery.ScopeGraph
