import Bindery.Proofs.Symbols.Table

/-! # Supertypes of a declaration

The walk up the supertypes goes level by level and meets each name at its least distance from the
declaration. It ends within its bound, since each level but the last has a declared name that was
not met before. So the walk finds just the names that are reached by steps to direct supertypes.
-/

namespace Bindery.SymbolTable

variable {t : SymbolTable} {a b c start : ClassName} {d e : Declaration} {k : Nat}
  {seen names : List ClassName}

/-- The second name is `k` steps to direct supertypes above the first one. -/
def Ascends (t : SymbolTable) : Nat → ClassName → ClassName → Prop
  | 0, a, b => a = b
  | k + 1, a, b => ∃ m, t.Ascends k a m ∧ b ∈ t.directSupertypes m

theorem mem_unseen_iff {n : ClassName} : n ∈ unseen seen names ↔ n ∈ names ∧ n ∉ seen := by
  simp [unseen]

theorem directSupertypes_of_find? (h : t.find? a = some d) :
    t.directSupertypes a = d.supertypes := by
  rw [directSupertypes, h]
  rfl

theorem find?_of_mem_directSupertypes (h : b ∈ t.directSupertypes a) :
    ∃ d, t.find? a = some d := by
  cases hFind : t.find? a with
  | none => simp [directSupertypes, hFind] at h
  | some d => exact ⟨d, rfl⟩

/-- A level with nothing new on it is the last one. -/
theorem Ascends.nearer_of_nearer
    (hLast : ∀ n, t.Ascends k start n → ∃ i < k, t.Ascends i start n) {j : Nat} {n : ClassName}
    (h : t.Ascends j start n) : ∃ i < k, t.Ascends i start n := by
  induction j generalizing n with
  | zero =>
    by_cases hZero : k = 0
    · exact hLast n (hZero ▸ h)
    · exact ⟨0, by omega, h⟩
  | succ j ih =>
    obtain ⟨m, hBelow, hStep⟩ := h
    obtain ⟨i, hNear, hAscends⟩ := ih hBelow
    by_cases hEnd : i + 1 = k
    · exact hLast n (hEnd ▸ ⟨m, hAscends, hStep⟩)
    · exact ⟨i + 1, by omega, m, hAscends, hStep⟩

/-! ## Levels of the walk -/

/-- The walk has seen what is less than `k` steps above its start, and goes on with names `k` steps
above it, among them all that are not seen yet. -/
structure AtLevel (t : SymbolTable) (start : ClassName) (k : Nat) (seen names : List ClassName) :
    Prop where
  seen_iff : ∀ n, n ∈ seen ↔ ∃ i < k, t.Ascends i start n
  sound : ∀ n ∈ names, t.Ascends k start n
  complete : ∀ n, t.Ascends k start n → n ∉ seen → n ∈ names

theorem AtLevel.first (h : t.find? d.name = some d) :
    t.AtLevel d.name 1 [d.name] d.supertypes where
  seen_iff n := by simp [Ascends, eq_comm]
  sound n hMem := ⟨d.name, rfl, by rwa [directSupertypes_of_find? h]⟩
  complete n hAscends _ := by
    obtain ⟨_, rfl, hStep⟩ := hAscends
    rwa [directSupertypes_of_find? h] at hStep

theorem AtLevel.mem_unseen_iff (h : t.AtLevel start k seen names) {n : ClassName} :
    n ∈ unseen seen names ↔ t.Ascends k start n ∧ n ∉ seen := by
  rw [SymbolTable.mem_unseen_iff]
  exact ⟨fun hMem => ⟨h.sound n hMem.1, hMem.2⟩, fun hMem => ⟨h.complete n hMem.1 hMem.2, hMem.2⟩⟩

/-- What is on a level is new there or was seen below it. -/
theorem AtLevel.mem_append_unseen (h : t.AtLevel start k seen names) {n : ClassName} :
    n ∈ seen ++ unseen seen names ↔ ∃ i < k + 1, t.Ascends i start n := by
  rw [List.mem_append, h.mem_unseen_iff, h.seen_iff]
  constructor
  · rintro (⟨i, hNear, hAscends⟩ | ⟨hAscends, _⟩)
    · exact ⟨i, by omega, hAscends⟩
    · exact ⟨k, by omega, hAscends⟩
  · rintro ⟨i, hNear, hAscends⟩
    by_cases hSeen : ∃ i < k, t.Ascends i start n
    · exact .inl hSeen
    · have hHere : i = k := by
        by_contra hOther
        exact hSeen ⟨i, by omega, hAscends⟩
      exact .inr ⟨hHere ▸ hAscends, hSeen⟩

theorem AtLevel.next (h : t.AtLevel start k seen names) :
    t.AtLevel start (k + 1) (seen ++ unseen seen names)
      ((unseen seen names).flatMap t.directSupertypes) where
  seen_iff n := h.mem_append_unseen
  sound n hMem := by
    obtain ⟨m, hFound, hStep⟩ := List.mem_flatMap.mp hMem
    exact ⟨m, (h.mem_unseen_iff.mp hFound).1, hStep⟩
  complete n hAscends hNew := by
    obtain ⟨m, hBelow, hStep⟩ := hAscends
    refine List.mem_flatMap.mpr ⟨m, h.mem_unseen_iff.mpr ⟨hBelow, fun hSeen => hNew ?_⟩, hStep⟩
    obtain ⟨i, hNear, hAscends⟩ := (h.seen_iff m).mp hSeen
    exact h.mem_append_unseen.mpr ⟨i + 1, by omega, m, hAscends, hStep⟩

/-- Beyond a level with nothing new there is nothing to find. -/
theorem AtLevel.seen_of_last (h : t.AtLevel start k seen names)
    (hLast : unseen seen names = []) {j : Nat} {n : ClassName} (hAscends : t.Ascends j start n) :
    n ∈ seen := by
  refine (h.seen_iff n).mpr (hAscends.nearer_of_nearer fun m hHere => ?_)
  by_contra hNew
  have hMem := h.mem_unseen_iff.mpr ⟨hHere, fun hSeen => hNew ((h.seen_iff m).mp hSeen)⟩
  rw [hLast] at hMem
  cases hMem

/-! ## The bound -/

/-- The declared names that were not seen. -/
def unmet (t : SymbolTable) (seen : List ClassName) : List ClassName :=
  (t.declarations.map (·.name)).filter fun n => !seen.contains n

theorem length_unmet_le (t : SymbolTable) (seen : List ClassName) :
    (t.unmet seen).length ≤ t.size := by
  refine (List.length_filter_le _ _).trans ?_
  simp [size, OrderedMap.size, declarations, OrderedMap.values]

/-- A level that leads on has a declared name on it. -/
theorem length_unmet_lt {found : List ClassName} (hNew : ∀ n ∈ found, n ∉ seen)
    (hOn : found.flatMap t.directSupertypes ≠ []) :
    (t.unmet (seen ++ found)).length < (t.unmet seen).length := by
  obtain ⟨n, hMem⟩ := List.exists_mem_of_ne_nil _ hOn
  obtain ⟨m, hFound, hStep⟩ := List.mem_flatMap.mp hMem
  obtain ⟨c, hFind⟩ := find?_of_mem_directSupertypes hStep
  obtain ⟨hDeclared, rfl⟩ := find?_eq_some_iff.mp hFind
  have hFewer : t.unmet (seen ++ found) =
      (t.unmet seen).filter fun n => !found.contains n := by
    simp [unmet, List.filter_filter, Bool.and_comm]
  rw [hFewer, List.length_filter_lt_length_iff_exists]
  refine ⟨c.name, List.mem_filter.mpr ⟨List.mem_map_of_mem hDeclared, ?_⟩, ?_⟩
  · simpa using hNew c.name hFound
  · simpa using hFound

/-- The bound that is left after a level is enough for the levels above it. -/
theorem bound_above {bound : Nat}
    (hBound : names = [] ∨ (t.unmet seen).length < bound + 1) :
    (unseen seen names).flatMap t.directSupertypes = [] ∨
      (t.unmet (seen ++ unseen seen names)).length < bound := by
  by_cases hOn : (unseen seen names).flatMap t.directSupertypes = []
  · exact .inl hOn
  · have hLess := length_unmet_lt (fun n hMem => (mem_unseen_iff.mp hMem).2) hOn
    rcases hBound with rfl | hBound
    · exact absurd rfl hOn
    · exact .inr (by omega)

theorem reach_nil (t : SymbolTable) (bound : Nat) (seen : List ClassName) :
    t.reach bound seen [] = [] := by
  cases bound <;> rfl

/-- After the last level the walk would go on with no names, and find nothing. -/
theorem reach_succ (t : SymbolTable) (bound : Nat) (seen names : List ClassName) :
    t.reach (bound + 1) seen names = unseen seen names ++
      t.reach bound (seen ++ unseen seen names)
        ((unseen seen names).flatMap t.directSupertypes) := by
  rw [reach]
  cases unseen seen names with
  | nil => exact (t.reach_nil bound _).symm
  | cons first others => rfl

theorem mem_reach_iff {bound : Nat} (h : t.AtLevel start k seen names)
    (hBound : names = [] ∨ (t.unmet seen).length < bound) {n : ClassName} :
    n ∈ t.reach bound seen names ↔ n ∉ seen ∧ ∃ j, t.Ascends j start n := by
  induction bound generalizing k seen names with
  | zero =>
    have hLast : unseen seen names = [] := by
      rcases hBound with rfl | hNever
      · rfl
      · omega
    rw [reach]
    constructor
    · nofun
    · rintro ⟨hNew, j, hAscends⟩
      exact absurd (h.seen_of_last hLast hAscends) hNew
  | succ bound ih =>
    rw [reach_succ, List.mem_append, ih h.next (bound_above hBound), List.mem_append, not_or,
      h.mem_unseen_iff]
    constructor
    · rintro (⟨hAscends, hFresh⟩ | ⟨⟨hFresh, _⟩, hAscends⟩)
      · exact ⟨hFresh, k, hAscends⟩
      · exact ⟨hFresh, hAscends⟩
    · rintro ⟨hFresh, j, hAscends⟩
      by_cases hHere : t.Ascends k start n
      · exact .inl ⟨hHere, hFresh⟩
      · exact .inr ⟨⟨hFresh, fun hMem => hHere hMem.1⟩, j, hAscends⟩

/-- The walk finds the names above a declaration but its own. -/
theorem mem_allSupertypes_iff (hDeclared : d ∈ t.declarations) :
    c ∈ t.allSupertypes d ↔ c ≠ d.name ∧ ∃ k, t.Ascends k d.name c := by
  have hFind : t.find? d.name = some d := find?_eq_some_iff.mpr ⟨hDeclared, rfl⟩
  have hBound := t.length_unmet_le [d.name]
  rw [allSupertypes, mem_reach_iff (.first hFind) (.inr (by omega)), List.mem_singleton]

theorem isSubtype_iff (hDeclared : d ∈ t.declarations) :
    t.isSubtype d c = true ↔ ∃ k, t.Ascends k d.name c := by
  rw [isSubtype, Bool.or_eq_true, decide_eq_true_iff, List.contains_iff_mem,
    mem_allSupertypes_iff hDeclared]
  constructor
  · rintro (rfl | ⟨_, hAscends⟩)
    · exact ⟨0, rfl⟩
    · exact hAscends
  · intro hAscends
    by_cases hSame : d.name = c
    · exact .inl hSame
    · exact .inr ⟨Ne.symm hSame, hAscends⟩

/-! ## One more declaration -/

theorem directSupertypes_put (h : e.name ≠ a) :
    (t.put e).directSupertypes a = t.directSupertypes a := by
  rw [directSupertypes, find?_put, if_neg h, directSupertypes]

/-- A declaration that is never met on the way up makes no difference to the way. -/
theorem ascends_put_iff (hUnmet : ∀ k, ¬ t.Ascends k a e.name) :
    (t.put e).Ascends k a b ↔ t.Ascends k a b := by
  induction k generalizing b with
  | zero => exact Iff.rfl
  | succ k ih =>
    refine exists_congr fun m => ?_
    rw [ih]
    refine and_congr_right fun hBelow => ?_
    have hOther : e.name ≠ m := by
      rintro rfl
      exact hUnmet k hBelow
    rw [directSupertypes_put hOther]

end Bindery.SymbolTable
