import Bindery.Proofs.Scope.Validation

/-! # The nearest ancestor that enables a feature

The walk to the nearest enabling ancestor goes up link by link and ends in one of three ways: at the
first scope that enables the feature, at a scope without a parent, or where it comes to a scope for
the second time. A loop behind the first enabling scope is not seen.
-/

namespace Bindery.ScopeGraph

variable {g : ScopeGraph} {f : Feature} {s a : ClassName}

/-- The scope is the first one strictly above another one that enables the feature. The scopes in
between do not, and no scope on the way is met twice. -/
structure FirstEnabling (g : ScopeGraph) (f : Feature) (s : ClassName) (between : List ClassName)
    (a : ClassName) : Prop where
  linked : (s :: between ++ [a]).IsChain g.Link
  fresh : (s :: between ++ [a]).Nodup
  passed : ∀ b ∈ between, g.enabled b f = false
  enabled : g.enabled a f = true

theorem FirstEnabling.ne {between : List ClassName} (h : g.FirstEnabling f s between a) :
    a ≠ s := by
  rintro rfl
  have hFirst := (List.nodup_cons.mp h.fresh).1
  exact hFirst (by simp)

/-- The scopes that are left on the way are distinct and have parents. -/
theorem FirstEnabling.length_lt {between : List ClassName} (h : g.FirstEnabling f s between a) :
    between.length < g.size :=
  length_le_size (List.nodup_append.mp h.fresh).1 (exists_link_of_isChain h.linked)

theorem ChainAbove.linked {chain : List ClassName} (h : g.ChainAbove s chain) :
    (s :: chain).IsChain g.Link := by
  induction h with
  | root _ => exact .singleton _
  | step hLink _ ih => exact List.isChain_cons_cons.mpr ⟨hLink, ih⟩

theorem ChainAbove.length_le {chain : List ClassName} (h : g.ChainAbove s chain) :
    chain.length ≤ g.size := by
  obtain ⟨front, last, hEnd⟩ := (List.eq_nil_or_concat (s :: chain)).resolve_left (by simp)
  rw [List.concat_eq_append] at hEnd
  have hLinked := h.linked
  have hFresh := h.nodup
  rw [hEnd] at hLinked hFresh
  have hFront := length_le_size (List.nodup_append.mp hFresh).1 (exists_link_of_isChain hLinked)
  have hLength := congrArg List.length hEnd
  simp only [List.length_cons, List.length_append, List.length_nil] at hLength
  omega

theorem search_link {bound : Nat} {path : List ClassName} {p : ClassName} (hLink : g.Link s p)
    (hNew : p ∉ path) : g.search f (bound + 1) path s =
      if g.enabled p f then .ok (some p) else g.search f bound (path ++ [p]) p := by
  have hParent : g.parentOf? s = some p := hLink
  simp only [search, hParent, List.contains_eq_mem, decide_eq_true_eq, if_neg hNew]

theorem search_loop {bound : Nat} {path : List ClassName} {p : ClassName} (hLink : g.Link s p)
    (hMet : p ∈ path) : g.search f (bound + 1) path s = .error (cycle (path ++ [p])) := by
  have hParent : g.parentOf? s = some p := hLink
  simp only [search, hParent, List.contains_eq_mem, decide_eq_true_eq, if_pos hMet]

/-- The induction is on the scopes in between, over all paths that the walk may have behind it. -/
theorem search_of_firstEnabling {between front : List ClassName} {bound : Nat}
    (hLinked : (s :: between ++ [a]).IsChain g.Link)
    (hFresh : (front ++ s :: between ++ [a]).Nodup)
    (hPassed : ∀ b ∈ between, g.enabled b f = false) (hEnabled : g.enabled a f = true)
    (hBound : between.length < bound) : g.search f bound (front ++ [s]) s = .ok (some a) := by
  induction between generalizing front s bound with
  | nil =>
    obtain ⟨bound, rfl⟩ := Nat.exists_eq_succ_of_ne_zero (Nat.ne_of_gt hBound)
    have hNew : a ∉ front ++ [s] := fun hMem =>
      (List.nodup_append.mp hFresh).2.2 a hMem a (by simp) rfl
    rw [search_link (List.isChain_pair.mp hLinked) hNew, if_pos hEnabled]
  | cons b rest ih =>
    obtain ⟨bound, rfl⟩ := Nat.exists_eq_succ_of_ne_zero (Nat.ne_of_gt (Nat.zero_lt_of_lt hBound))
    obtain ⟨hLink, hRest⟩ := List.isChain_cons_cons.mp hLinked
    obtain ⟨hFirst, hOthers⟩ := List.forall_mem_cons.mp hPassed
    have hSplit : front ++ s :: (b :: rest) ++ [a] = (front ++ [s]) ++ b :: rest ++ [a] := by simp
    rw [hSplit] at hFresh
    have hNew : b ∉ front ++ [s] := fun hMem =>
      (List.nodup_append.mp (List.nodup_append.mp hFresh).1).2.2 b hMem b (by simp) rfl
    rw [search_link hLink hNew, if_neg (by simp [hFirst])]
    exact ih hRest hFresh hOthers (Nat.lt_of_succ_lt_succ hBound)

theorem search_ends (bound : Nat) {front : List ClassName} (hWalk : g.Walk front s)
    (hBound : g.size < front.length + bound) :
    (∃ between a, g.search f bound (front ++ [s]) s = .ok (some a) ∧
      (front ++ s :: between ++ [a]).IsChain g.Link ∧ (front ++ s :: between ++ [a]).Nodup ∧
      (∀ b ∈ between, g.enabled b f = false) ∧ g.enabled a f = true) ∨
    (∃ chain, g.search f bound (front ++ [s]) s = .ok none ∧ g.ChainAbove s chain ∧
      ∀ b ∈ chain, g.enabled b f = false) ∨
    (∃ path last,
      g.search f bound (front ++ [s]) s = .error (cycle (front ++ s :: path ++ [last])) ∧
      (front ++ s :: path ++ [last]).IsChain g.Link ∧ (front ++ s :: path).Nodup ∧
      last ∈ front ++ s :: path ∧ ∀ b ∈ path, g.enabled b f = false) := by
  refine Walk.induction ?_ ?_ ?_ bound hWalk hBound
  · intro bound front s hParent
    exact .inr (.inl ⟨[], by rw [search, hParent], .root hParent, by simp⟩)
  · intro bound front s p hWalk hLink hMet
    refine .inr (.inr ⟨[], p, search_loop hLink hMet, ?_, hWalk.fresh, hMet, by simp⟩)
    exact hWalk.linked.append_overlap (List.isChain_pair.mpr hLink) (by simp)
  · intro bound front s p hNext hLink hNew hRest
    rw [search_link hLink hNew]
    cases hEnabled : g.enabled p f with
    | true => exact .inl ⟨[], p, rfl, hNext.linked, hNext.fresh, by simp, hEnabled⟩
    | false =>
      have hSplit (rest : List ClassName) :
          front ++ s :: (p :: rest) = (front ++ [s]) ++ p :: rest := by simp
      simp only [Bool.false_eq_true, if_false]
      rcases hRest with ⟨rest, a, hSearch, hLinked, hFresh, hPassed, hFound⟩ |
        ⟨chain, hSearch, hAbove, hPassed⟩ |
        ⟨path, last, hSearch, hLinked, hFresh, hReturn, hPassed⟩
      · refine .inl ⟨p :: rest, a, hSearch, ?_, ?_, ?_, hFound⟩
        · rwa [hSplit]
        · rwa [hSplit]
        · exact List.forall_mem_cons.mpr ⟨hEnabled, hPassed⟩
      · exact .inr (.inl ⟨p :: chain, hSearch, .step hLink hAbove,
          List.forall_mem_cons.mpr ⟨hEnabled, hPassed⟩⟩)
      · refine .inr (.inr ⟨p :: path, last, ?_, ?_, ?_, ?_, ?_⟩)
        · rw [hSearch, hSplit]
        · rwa [hSplit]
        · rwa [hSplit]
        · rwa [hSplit]
        · exact List.forall_mem_cons.mpr ⟨hEnabled, hPassed⟩

/-- What a larger bound allows is never used. -/
theorem search_add_bound (bound extra : Nat) {front : List ClassName} (hWalk : g.Walk front s)
    (hBound : g.size < front.length + bound) :
    g.search f (bound + extra) (front ++ [s]) s = g.search f bound (front ++ [s]) s := by
  refine Walk.induction ?_ ?_ ?_ bound hWalk hBound
  · intro bound front s hParent
    rw [Nat.succ_add, search, search, hParent]
  · intro bound front s p _ hLink hMet
    rw [Nat.succ_add, search_loop hLink hMet, search_loop hLink hMet]
  · intro bound front s p _ hLink hNew hRest
    rw [Nat.succ_add, search_link hLink hNew, search_link hLink hNew, hRest]

theorem FirstEnabling.nearestEnabling {between : List ClassName}
    (h : g.FirstEnabling f s between a) : g.nearestEnabling s f = .ok (some a) := by
  have hLength := h.length_lt
  have hFresh : ([] ++ s :: between ++ [a]).Nodup := h.fresh
  exact search_of_firstEnabling h.linked hFresh h.passed h.enabled (by omega)

theorem ChainAbove.nearestEnabling_eq_none {chain : List ClassName} (h : g.ChainAbove s chain)
    (hPassed : ∀ b ∈ chain, g.enabled b f = false) : g.nearestEnabling s f = .ok none := by
  have hNone : (chain.find? fun b => g.enabled b f) = none := by
    rw [List.find?_eq_none]
    intro b hMem
    simp [hPassed b hMem]
  rw [h.nearestEnabling, hNone]

/-- The three ways in which the walk ends, with the scopes that it has come along. -/
theorem nearestEnabling_ends (g : ScopeGraph) (f : Feature) (s : ClassName) :
    (∃ between a, g.nearestEnabling s f = .ok (some a) ∧ g.FirstEnabling f s between a) ∨
    (∃ chain, g.nearestEnabling s f = .ok none ∧ g.ChainAbove s chain ∧
      ∀ b ∈ chain, g.enabled b f = false) ∨
    (∃ path last, g.nearestEnabling s f = .error (cycle (s :: path ++ [last])) ∧
      g.Loop s (s :: path) last ∧ ∀ b ∈ path, g.enabled b f = false) := by
  rcases search_ends (f := f) (g.size + 1) (.start g s) (by simp) with
    ⟨between, a, hSearch, hLinked, hFresh, hPassed, hEnabled⟩ | hNone |
    ⟨path, last, hSearch, hLinked, hFresh, hReturn, hPassed⟩
  · exact .inl ⟨between, a, hSearch, hLinked, hFresh, hPassed, hEnabled⟩
  · exact .inr (.inl hNone)
  · exact .inr (.inr ⟨path, last, hSearch, ⟨rfl, hLinked, hFresh, hReturn⟩, hPassed⟩)

/-- The nearest enabling ancestor is the first scope strictly above that enables the feature, if the
walk comes to one before it comes to any scope for the second time. There is none if the chain ends
without one, and otherwise the walk fails with the loop that it ran into. It follows no more links
than there are configured scopes, and its bound, which allows one look more, is never used up. The
scope itself is never found. On a whole chain the first enabling scope is found, so that the walk
succeeds from everywhere in a forest. -/
theorem nearestEnabling_first_or_none_or_cycle (g : ScopeGraph) (f : Feature) :
    (∀ s,
      (∀ a, g.nearestEnabling s f = .ok (some a) ↔
        ∃ between, g.FirstEnabling f s between a ∧ (between ++ [a]).length ≤ g.size) ∧
      (g.nearestEnabling s f = .ok none ↔ ∃ chain, g.ChainAbove s chain ∧
        (∀ b ∈ chain, g.enabled b f = false) ∧ chain.length ≤ g.size) ∧
      (((¬ ∃ between a, g.FirstEnabling f s between a) ∧
          ¬ ∃ chain, g.ChainAbove s chain ∧ ∀ b ∈ chain, g.enabled b f = false) ↔
        ∃ path last, g.nearestEnabling s f = .error (cycle (s :: path ++ [last])) ∧
          g.Loop s (s :: path) last ∧ (path ++ [last]).length ≤ g.size) ∧
      g.nearestEnabling s f ≠ .ok (some s) ∧
      (∀ chain, g.ancestors s = .ok chain →
        g.nearestEnabling s f = .ok (chain.find? fun a => g.enabled a f)) ∧
      ∀ extra, g.search f (g.size + 1 + extra) [s] s = g.nearestEnabling s f) ∧
    (g.validate = .ok () → ∀ s, ∃ found, g.nearestEnabling s f = .ok found) := by
  refine ⟨fun s => ⟨fun a => ⟨fun hFound => ?_, ?_⟩, ⟨fun hFound => ?_, ?_⟩, ⟨?_, ?_⟩, ?_, ?_,
    fun extra => search_add_bound (g.size + 1) extra (.start g s) (by simp)⟩, fun hForest s => ?_⟩
  · rcases g.nearestEnabling_ends f s with ⟨between, b, hOk, hFirst⟩ | ⟨_, hOk, _⟩ | ⟨_, _, hOk, _⟩
    all_goals rw [hOk] at hFound; cases hFound
    exact ⟨between, hFirst, by simpa using Nat.succ_le_of_lt hFirst.length_lt⟩
  · rintro ⟨between, hFirst, _⟩
    exact hFirst.nearestEnabling
  · rcases g.nearestEnabling_ends f s with
      ⟨_, _, hOk, _⟩ | ⟨chain, _, hAbove, hPassed⟩ | ⟨_, _, hOk, _⟩
    · rw [hOk] at hFound
      cases hFound
    · exact ⟨chain, hAbove, hPassed, hAbove.length_le⟩
    · rw [hOk] at hFound
      cases hFound
  · rintro ⟨chain, hAbove, hPassed, _⟩
    exact hAbove.nearestEnabling_eq_none hPassed
  · rintro ⟨hNoFirst, hNoChain⟩
    rcases g.nearestEnabling_ends f s with
      ⟨between, a, _, hFirst⟩ | ⟨chain, _, hAbove, hPassed⟩ | ⟨path, last, hError, hLoop, _⟩
    · exact absurd ⟨between, a, hFirst⟩ hNoFirst
    · exact absurd ⟨chain, hAbove, hPassed⟩ hNoChain
    · exact ⟨path, last, hError, hLoop, by simpa using hLoop.length_le⟩
  · rintro ⟨path, last, hError, _⟩
    constructor
    · rintro ⟨between, a, hFirst⟩
      rw [hFirst.nearestEnabling] at hError
      cases hError
    · rintro ⟨chain, hAbove, hPassed⟩
      rw [hAbove.nearestEnabling_eq_none hPassed] at hError
      cases hError
  · intro hSelf
    rcases g.nearestEnabling_ends f s with ⟨_, _, hOk, hFirst⟩ | ⟨_, hOk, _⟩ | ⟨_, _, hOk, _⟩
    all_goals rw [hOk] at hSelf; cases hSelf
    exact hFirst.ne rfl
  · intro chain hChain
    exact (ancestors_eq_ok_iff.mp hChain).nearestEnabling f
  · obtain ⟨chain, hAbove⟩ := exists_chainAbove hForest s
    exact ⟨_, hAbove.nearestEnabling f⟩

def leaf : ClassName where
  package := "levels"
  simpleNames := ["Leaf"]

def middle : ClassName where
  package := leaf.package
  simpleNames := ["Middle"]
  isPackage_package := leaf.isPackage_package

def top : ClassName where
  package := leaf.package
  simpleNames := ["Top"]
  isPackage_package := leaf.isPackage_package

/-- A scope under one without the feature, which is under one with it, as a graph. -/
def threeLevels : ScopeGraph :=
  [{ scope := leaf, parent := some middle, features := .none },
   { scope := middle, parent := some top, features := .none },
   { scope := top, parent := none, features := .all }].foldl insert empty

theorem nearestEnabling_threeLevels :
    threeLevels.validate = .ok () ∧ threeLevels.ancestors leaf = .ok [middle, top] ∧
      threeLevels.nearestEnabling leaf .work = .ok (some top) ∧
      ∀ s, ∃ found, threeLevels.nearestEnabling s .work = .ok found := by
  have hForest : threeLevels.validate = .ok () := by rfl
  have hChain : threeLevels.ancestors leaf = .ok [middle, top] := by rfl
  obtain ⟨hWalks, hTotal⟩ := nearestEnabling_first_or_none_or_cycle threeLevels .work
  obtain ⟨-, -, -, -, hAncestors, -⟩ := hWalks leaf
  exact ⟨hForest, hChain, hAncestors [middle, top] hChain, hTotal hForest⟩

end Bindery.ScopeGraph
